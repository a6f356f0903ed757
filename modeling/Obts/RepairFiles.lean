import Obts.RepairFolders

/-!
# Files of a repair

Every file gets a target, no two targets have one folded form, and none has that of a new folder. A file that
is its own candidate keeps its path when nothing else has its folded form.
-/
namespace RepairFiles

open InsertionOrder PortableNames NameRepair RepairedNames List

section Placing
variable {u : CaseFolding} {keys : List (List Char)} {pairs : List (List Char × List Char)}
  {state : Placed} {file candidate target : List Char} {pair : List Char × List Char}

/-- What the loops over the files keep, with the keys that were taken at first. -/
structure Placing (u : CaseFolding) (keys : List (List Char)) (pairs : List (List Char × List Char))
    (state : Placed) : Prop where
  distinct : (state.fileMap.map Prod.fst).Nodup
  taken : ∀ key, key ∈ state.taken ↔ key ∈ keys ∨ ∃ e ∈ state.fileMap, foldPathCase u e.2 = key
  apart : ∀ e ∈ state.fileMap, foldPathCase u e.2 ∉ keys
  injective : ∀ e ∈ state.fileMap, ∀ e' ∈ state.fileMap, foldPathCase u e.2 = foldPathCase u e'.2 → e = e'
  origin : ∀ e ∈ state.fileMap, ∃ candidate, (e.1, candidate) ∈ pairs ∧
    (e.2 = candidate ∨ ∃ n, e.2 = withSuffix candidate n)

/-- A file that has no target yet gets one that is not taken. -/
lemma Placing.place (h : Placing u keys pairs state) (hnew : file ∉ state.fileMap.map Prod.fst)
    (hfree : foldPathCase u target ∉ state.taken) (hpair : (file, candidate) ∈ pairs)
    (htgt : target = candidate ∨ ∃ n, target = withSuffix candidate n) :
    Placing u keys pairs ⟨add state.taken (foldPathCase u target), set state.fileMap file target⟩ := by
  have hset : set state.fileMap file target = state.fileMap ++ [(file, target)] := if_neg hnew
  have hother : ∀ e ∈ state.fileMap, foldPathCase u e.2 ≠ foldPathCase u target := by
    intro e he heq
    exact hfree ((h.taken _).mpr (.inr ⟨e, he, heq⟩))
  constructor
  · exact nodup_keys_set h.distinct _ _
  · intro key
    rw [mem_add, h.taken, hset]
    simp only [mem_append, mem_singleton, or_and_right, exists_or, exists_eq_left]
    rw [or_assoc, eq_comm (a := key)]
  · rw [hset, forall_mem_concat]
    exact ⟨h.apart, fun hin => hfree ((h.taken _).mpr (.inl hin))⟩
  · rw [hset]
    intro e he e' he' heq
    rw [mem_append, mem_singleton] at he he'
    rcases he with he | rfl <;> rcases he' with he' | rfl
    · exact h.injective e he e' he' heq
    · exact absurd heq (hother e he)
    · exact absurd heq.symm (hother e' he')
    · rfl
  · rw [hset, forall_mem_concat]
    exact ⟨h.origin, candidate, hpair, htgt⟩

/-- In the first loop a file is its own target. -/
def Own (state : Placed) : Prop := ∀ e ∈ state.fileMap, e.2 = e.1

lemma Placing.keepFile (h : Placing u keys pairs state) (hown : Own state)
    (hpair : pair ∈ pairs) : Placing u keys pairs (keepFile u state pair) ∧ Own (keepFile u state pair) := by
  rw [NameRepair.keepFile]
  split
  · exact ⟨h, hown⟩
  rename_i hkeep
  simp only [Bool.or_eq_true, decide_eq_true_eq, not_or, ne_eq, not_not] at hkeep
  obtain ⟨hcand, hfree⟩ := hkeep
  obtain ⟨file, candidate⟩ := pair
  obtain rfl : candidate = file := hcand
  have hnew : candidate ∉ state.fileMap.map Prod.fst := by
    intro hin
    obtain ⟨e, he, rfl⟩ := mem_map.mp hin
    refine hfree ((h.taken _).mpr (.inr ⟨e, he, ?_⟩))
    rw [hown e he]
  refine ⟨h.place hnew hfree hpair (.inl rfl), ?_⟩
  intro e he
  rcases mem_set.mp he with rfl | ⟨-, he⟩
  · rfl
  · exact hown e he

lemma Placing.placeFile (h : Placing u keys pairs state) (hpair : pair ∈ pairs) :
    Placing u keys pairs (placeFile u state pair) := by
  rw [NameRepair.placeFile]
  split
  · exact h
  rename_i hnone
  rw [Bool.not_eq_true, Option.isSome_eq_false_iff, Option.isNone_iff_eq_none, valueAt_eq_none] at hnone
  obtain ⟨hfree, htgt⟩ := freeTarget_spec (u := u) state.taken pair.2
  exact h.place hnone hfree hpair htgt

lemma keep_run : ∀ (rest : List (List Char × List Char)) (state : Placed), (∀ pair ∈ rest, pair ∈ pairs) →
    Placing u keys pairs state → Own state →
    Placing u keys pairs (rest.foldl (keepFile u) state) ∧ Own (rest.foldl (keepFile u) state) := by
  intro rest
  induction rest with
  | nil => exact fun _ _ h hown => ⟨h, hown⟩
  | cons pair rest ih =>
    intro state hpairs h hown
    rw [forall_mem_cons] at hpairs
    obtain ⟨hplac, hownN⟩ := h.keepFile hown hpairs.1
    exact ih _ hpairs.2 hplac hownN

lemma place_run : ∀ (rest : List (List Char × List Char)) (state : Placed), (∀ pair ∈ rest, pair ∈ pairs) →
    Placing u keys pairs state → Placing u keys pairs (rest.foldl (placeFile u) state) := by
  intro rest
  induction rest with
  | nil => exact fun _ _ h => h
  | cons pair rest ih =>
    intro state hpairs h
    rw [forall_mem_cons] at hpairs
    exact ih _ hpairs.2 (h.placeFile hpairs.1)

lemma placeFile_isSome (state : Placed) (pair : List Char × List Char) :
    (valueAt (NameRepair.placeFile u state pair).fileMap pair.1).isSome := by
  rw [NameRepair.placeFile]
  split
  · assumption
  · simp

lemma placeFile_kept (h : valueAt state.fileMap file = some target) (pair : List Char × List Char) :
    valueAt (NameRepair.placeFile u state pair).fileMap file = some target := by
  rw [NameRepair.placeFile]
  split
  · exact h
  rename_i hnone
  have hne : file ≠ pair.1 := by
    rintro rfl
    rw [h] at hnone
    exact hnone rfl
  rwa [valueAt_set_of_ne _ _ hne]

lemma placed_kept : ∀ (rest : List (List Char × List Char)) (state : Placed),
    valueAt state.fileMap file = some target →
      valueAt (rest.foldl (NameRepair.placeFile u) state).fileMap file = some target := by
  intro rest
  induction rest with
  | nil => exact fun _ h => h
  | cons pair rest ih => exact fun state h => ih _ (placeFile_kept h pair)

lemma placed_isSome : ∀ (rest : List (List Char × List Char)) (state : Placed), ∀ pair ∈ rest,
    (valueAt (rest.foldl (NameRepair.placeFile u) state).fileMap pair.1).isSome := by
  intro rest
  induction rest with
  | nil => exact fun _ _ h => nomatch h
  | cons first rest ih =>
    intro state pair hpair
    rcases mem_cons.mp hpair with rfl | hpair
    · obtain ⟨target, htgt⟩ := Option.isSome_iff_exists.mp (placeFile_isSome (u := u) state pair)
      exact Option.isSome_iff_exists.mpr ⟨target, placed_kept rest _ htgt⟩
    · exact ih _ pair hpair

/-- A file that is its own candidate keeps its path when its folded form is its own. -/
lemma kept_of_alone (h : Placing u keys pairs state) (hown : Own state) (hkeys : foldPathCase u file ∉ keys)
    (halone : ∀ e ∈ pairs, foldPathCase u e.1 = foldPathCase u file → e.1 = file) :
    ∀ rest : List (List Char × List Char), (∀ pair ∈ rest, pair ∈ pairs) → (file, file) ∈ rest ∨
      valueAt state.fileMap file = some file → valueAt (rest.foldl (keepFile u) state).fileMap file = some file := by
  intro rest
  induction rest generalizing state with
  | nil => exact fun _ hin => hin.resolve_left not_mem_nil
  | cons pair rest ih =>
    intro hpairs hin
    rw [forall_mem_cons] at hpairs
    obtain ⟨hplac, hownN⟩ := h.keepFile hown hpairs.1
    refine ih hplac hownN hpairs.2 ?_
    by_cases hlater : (file, file) ∈ rest
    · exact .inl hlater
    right
    rw [NameRepair.keepFile]
    rcases hin with hin | hin
    · obtain rfl : (file, file) = pair := (mem_cons.mp hin).resolve_right hlater
      split
      · rename_i hskip
        simp only [Bool.or_eq_true, decide_eq_true_eq, ne_eq, not_true_eq_false, decide_false, false_or,
          h.taken, Bool.false_eq_true] at hskip
        obtain ⟨e, he, heq⟩ := hskip.resolve_left hkeys
        obtain ⟨candidate, hpair, -⟩ := h.origin e he
        rw [hown e he] at heq
        have hsame : e.1 = file := halone (e.1, candidate) hpair heq
        have hisS : (valueAt state.fileMap file).isSome := by
          rw [Option.isSome_iff_ne_none, Ne, valueAt_eq_none, not_not, ← hsame]
          exact mem_map_of_mem he
        obtain ⟨target, htgt⟩ := Option.isSome_iff_exists.mp hisS
        rw [htgt, show target = file from hown _ (mem_of_valueAt htgt)]
      · exact valueAt_set_self _ _ _
    · split
      · exact hin
      by_cases hsame : file = pair.1
      · rw [← hsame]
        exact valueAt_set_self _ _ _
      · rwa [valueAt_set_of_ne _ _ hsame]

end Placing

section Files
variable {u : CaseFolding} {claimed : Directories} {files : List (List Char)}
  {file target : List Char}

/-- The files with their candidates. -/
def candidates (claimed : Directories) (files : List (List Char)) : List (List Char × List Char) :=
  files.map fun file => (file, candidateOf claimed.directoryMap file true)

lemma mem_candidates {e : List Char × List Char} :
    e ∈ candidates claimed files ↔ e.1 ∈ files ∧ e.2 = candidateOf claimed.directoryMap e.1 true := by
  rw [candidates, mem_map]
  constructor
  · rintro ⟨file, hfile, rfl⟩
    exact ⟨hfile, rfl⟩
  · rintro ⟨hfile, hcand⟩
    exact ⟨e.1, hfile, Prod.ext rfl hcand.symm⟩

lemma placing_start (keys : List (List Char)) (pairs : List (List Char × List Char)) :
    Placing u keys pairs ⟨keys, []⟩ ∧ Own ⟨keys, []⟩ := by
  refine ⟨⟨nodup_nil, fun key => ?_, fun _ h => (nomatch h), fun _ h => (nomatch h), fun _ h => (nomatch h)⟩,
    fun _ h => (nomatch h)⟩
  simp

variable (u claimed files) in
lemma placing_placeFiles : Placing u (claimed.directoryByKey.map Prod.fst) (candidates claimed files)
    (placeFiles u claimed files) := by
  obtain ⟨hstart, hown⟩ := placing_start (u := u) (claimed.directoryByKey.map Prod.fst) (candidates claimed files)
  apply place_run _ _ fun _ h => h
  exact (keep_run _ _ (fun _ h => h) hstart hown).1

lemma exists_target (h : file ∈ files) :
    ∃ target, valueAt (placeFiles u claimed files).fileMap file = some target := by
  have hpair : (file, candidateOf claimed.directoryMap file true) ∈ candidates claimed files :=
    mem_candidates.mpr ⟨h, rfl⟩
  exact Option.isSome_iff_exists.mp (placed_isSome _ _ _ hpair)

/-- A target that a file has is its candidate, with or without a number. -/
lemma target_cases (h : valueAt (placeFiles u claimed files).fileMap file = some target) :
    file ∈ files ∧ foldPathCase u target ∉ claimed.directoryByKey.map Prod.fst ∧
      (target = candidateOf claimed.directoryMap file true ∨
        ∃ n, target = withSuffix (candidateOf claimed.directoryMap file true) n) := by
  have hplac := placing_placeFiles u claimed files
  have hmem := mem_of_valueAt h
  obtain ⟨candidate, hpair, htgt⟩ := hplac.origin _ hmem
  obtain ⟨hfile, hcand⟩ := mem_candidates.mp hpair
  dsimp only at hfile hcand htgt
  subst hcand
  exact ⟨hfile, hplac.apart _ hmem, htgt⟩

lemma target_inj {other : List Char} {target' : List Char}
    (h : valueAt (placeFiles u claimed files).fileMap file = some target)
    (h' : valueAt (placeFiles u claimed files).fileMap other = some target')
    (heq : foldPathCase u target = foldPathCase u target') : file = other := by
  have hsame := (placing_placeFiles u claimed files).injective _ (mem_of_valueAt h) _ (mem_of_valueAt h') heq
  exact congrArg Prod.fst hsame

lemma target_of_alone (hfile : file ∈ files) (hcand : candidateOf claimed.directoryMap file true = file)
    (hkeys : foldPathCase u file ∉ claimed.directoryByKey.map Prod.fst)
    (halone : ∀ other ∈ files, foldPathCase u other = foldPathCase u file → other = file) :
    valueAt (placeFiles u claimed files).fileMap file = some file := by
  obtain ⟨hstart, hown⟩ := placing_start (u := u) (claimed.directoryByKey.map Prod.fst) (candidates claimed files)
  have hpair : (file, file) ∈ candidates claimed files := mem_candidates.mpr ⟨hfile, hcand.symm⟩
  apply placed_kept
  refine kept_of_alone hstart hown hkeys ?_ _ (fun _ h => h) (.inl hpair)
  exact fun e he heq => halone e.1 (mem_candidates.mp he).1 heq

end Files

end RepairFiles
