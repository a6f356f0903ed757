import Obts.ApplyPlans
import Obts.RecoveryJournals

/-!
# Planned journals

The journal that an apply writes first is read back when the paths it was given are safe, no path is
called `__proto__`, and what it is about to write or remove keeps clear of what it retains.
-/
namespace ApplyJournals

open ForestEdits InsertionOrder SlashPath DirectoryIntents ClientPaths VaultInventory StoredIntents List List.Sublist
open Bool (and_eq_true and_eq_true_iff not_eq_true)
open DirectoryRecovery (Fingerprint isPreflightFingerprint isTargetFileSizeMap pathArray assign FileHashes
  FileReading isSafeJournalPath_iff isTargetFileSizeMap_copy recoveryFileFingerprint_valid)
open GitTrees (changedPathsConflict)

variable {paths targetMatchedPaths localPaths localOnly : List Path}

section Safe
variable {u : SegmentNormalization} {p d : Path}

lemma splitOn_prefix_of_le (h : d ≤ p) : d.text.toList.splitOn '/' <+: p.text.toList.splitOn '/' := by
  rcases h.eq_or_lt with rfl | hlt
  · exact prefix_refl _
  · obtain ⟨rest, -, hsplit⟩ := splitOn_of_withSlash (Path.lt_iff.mp hlt)
    exact hsplit ▸ prefix_append _ _

/-- A valid path lies in neither of the client's own folders. -/
lemma isRecoverableApplyPath_of_valid (h : isValidVaultPath p) : isRecoverableApplyPath u p := by
  have hvalid := isValidVaultPath_iff.mp h
  have hobts : pathsOverlapWithinRoot p ⟨".obts"⟩ = false := by
    rw [← not_eq_true, pathsOverlapWithinRoot_iff]
    intro hle
    obtain ⟨rest, hrest⟩ := splitOn_prefix_of_le hle
    refine hvalid.not_obts ?_
    rw [← hrest]
    rfl
  have hgit : pathsOverlapWithinRoot p ⟨".git"⟩ = false := by
    rw [← not_eq_true, pathsOverlapWithinRoot_iff]
    intro hle
    exact hvalid.not_git ((splitOn_prefix_of_le hle).subset (by decide))
  have hinfix : ¬ "/.git/".toList <:+: p.text.toList := by
    rintro ⟨front, rest, htext⟩
    refine hvalid.not_git ?_
    rw [← htext, append_assoc, show "/.git/".toList ++ rest = '/' :: (".git".toList ++ '/' :: rest)
      from rfl, splitOn_append_cons_self, splitOn_append_cons_self]
    exact mem_append_right _ (mem_append_left _ (by decide))
  rw [isRecoverableApplyPath, hobts, hgit, decide_eq_false hinfix]
  simp

lemma isSafeJournalPath_recoverable (h : isSafeJournalPath u p) : isRecoverableApplyPath u p :=
  isRecoverableApplyPath_of_valid (isSafeJournalPath_iff.mp h).2

/-- The folders above a safe path are safe. -/
lemma isSafeJournalPath_folder (h : isSafeJournalPath u p) (hlt : d < p) : isSafeJournalPath u d := by
  obtain ⟨hnorm, hvalid⟩ := isSafeJournalPath_iff.mp h
  have hdir := (isValidVaultPath_iff.mp hvalid).folder hlt
  exact isSafeJournalPath_iff.mpr ⟨hnorm.folder hdir hlt, isValidVaultPath_iff.mpr hdir⟩

lemma isSafeJournalPath_directoryPrefixes (h : ∀ p ∈ paths, isSafeJournalPath u p) :
    ∀ d ∈ paths.flatMap directoryPrefixes, isSafeJournalPath u d := by
  intro d hd
  obtain ⟨p, hp, hd⟩ := mem_flatMap.mp hd
  exact isSafeJournalPath_folder (h p hp) (mem_directoryPrefixes.mp hd)

/-- A safe path is not one of the client's own files. -/
lemma isSafeJournalPath_not_obts (h : isSafeJournalPath u p) : p.startsWithDir ⟨".obts"⟩ = false := by
  rw [← not_eq_true, Path.startsWithDir_iff_lt]
  intro hlt
  obtain ⟨rest, hrest⟩ := splitOn_prefix_of_le hlt.le
  refine (isValidVaultPath_iff.mp (isSafeJournalPath_iff.mp h).2).not_obts ?_
  rw [← hrest]
  rfl

end Safe

section Lists
variable {u : SegmentNormalization} {paths : List Path}

lemma nodup_sort (h : paths.Nodup) : (sort paths).Nodup :=
  (sortBy_perm _ _).nodup_iff.mpr h

/-- A sorted list without repetitions is its own normal form. -/
lemma sort_ofList_sort (h : paths.Nodup) : sort (ofList (sort paths)) = sort paths := by
  rw [ofList_of_nodup (nodup_sort h)]
  exact sort_eq_of_perm (sortBy_perm _ _)

lemma sortedPaths_sort (h : paths.Nodup) (hsafe : ∀ p ∈ paths, isSafeJournalPath u p) :
    sortedPaths u (sort paths) := by
  rw [sortedPaths, and_eq_true, all_eq_true, decide_eq_true_eq]
  refine ⟨fun p hp => ?_, (sort_ofList_sort h).symm⟩
  have hp := hsafe p (mem_sort.mp hp)
  rw [hp, isSafeJournalPath_recoverable hp]
  rfl

lemma pathArray_iff : pathArray u paths ↔ (∀ p ∈ paths, isSafeJournalPath u p) ∧ paths.Nodup := by
  rw [pathArray, and_eq_true, all_eq_true, decide_eq_true_eq]

lemma pathArray_sort (h : paths.Nodup) (hsafe : ∀ p ∈ paths, isSafeJournalPath u p) : pathArray u (sort paths) :=
  pathArray_iff.mpr ⟨fun p hp => hsafe p (mem_sort.mp hp), nodup_sort h⟩

lemma sortedPaths_safe (h : sortedPaths u paths) : ∀ p ∈ paths, isSafeJournalPath u p := by
  rw [sortedPaths, and_eq_true, all_eq_true] at h
  exact fun p hp => (and_eq_true_iff.mp (h.1 p hp)).1

end Lists

variable {journal next : ApplyJournal} {results : List (Path × Fingerprint)}
  {p candidate key : Path} {β : Type}

section Deferring
variable {u : SegmentNormalization} {candidates deferred queue : List Path} {fuel : Nat}

lemma nodup_expandFrom (h : deferred.Nodup) : (expandFrom candidates fuel queue deferred).Nodup := by
  induction fuel generalizing queue deferred with
  | zero => exact h
  | succ fuel ih =>
    rw [expandFrom]
    split
    · exact h
    · exact ih (nodup_addAll h)

lemma subset_expandFrom : deferred ⊆ expandFrom candidates fuel queue deferred := by
  induction fuel generalizing queue deferred with
  | zero => exact Subset.refl _
  | succ fuel ih =>
    rw [expandFrom]
    split
    · exact Subset.refl _
    · exact fun p hp => ih (mem_addAll.mpr (.inl hp))

/-- What contains the deferred paths and is closed under conflicts contains all that is deferred. -/
lemma expandFrom_subset {S : Set Path} (hqueue : ∀ p ∈ queue, p ∈ S) (hdfr : ∀ p ∈ deferred, p ∈ S)
    (hcls : ∀ p ∈ S, ∀ q ∈ candidates, changedPathsConflict q p → q ∈ S) :
    ∀ p ∈ expandFrom candidates fuel queue deferred, p ∈ S := by
  induction fuel generalizing queue deferred with
  | zero => exact hdfr
  | succ fuel ih =>
    rw [expandFrom]
    split
    · exact hdfr
    rename_i deferredPath hlast
    have hadded : ∀ q ∈ candidates.filter fun candidate => !deferred.contains candidate &&
        changedPathsConflict candidate deferredPath, q ∈ S := by
      intro q hq
      obtain ⟨hq, hnew⟩ := mem_filter.mp hq
      exact hcls deferredPath (hqueue _ (mem_of_getLast? hlast)) q hq (and_eq_true_iff.mp hnew).2
    refine ih (fun p hp => ?_) fun p hp => ?_
    · exact (mem_append.mp hp).elim (fun hp => hqueue p (dropLast_subset _ hp)) (hadded p)
    · exact (mem_addAll.mp hp).elim (hdfr p) (hadded p)

lemma mem_expandDeferredApplyPaths (h : p ∈ expandDeferredApplyPaths journal targetMatchedPaths localPaths) :
    p ∈ journal.deferredLocalPaths ∨ p ∈ localPaths ∨ p ∈ journal.affectedPaths := by
  have hstart : ∀ q ∈ ofList (journal.deferredLocalPaths ++ localPaths),
      q ∈ journal.deferredLocalPaths ∨ q ∈ localPaths ∨ q ∈ journal.affectedPaths :=
    fun q hq => (mem_append.mp (mem_ofList.mp hq)).imp_right .inl
  exact expandFrom_subset (S := {q | _}) hstart hstart
    (fun _ _ q hq _ => .inr (.inr (mem_filter.mp hq).1)) p (mem_sort.mp h)

lemma sortedPaths_expandDeferred (hdfr : ∀ p ∈ journal.deferredLocalPaths, isSafeJournalPath u p)
    (hlocal : ∀ p ∈ localPaths, isSafeJournalPath u p) (haff : ∀ p ∈ journal.affectedPaths, isSafeJournalPath u p) :
    sortedPaths u (expandDeferredApplyPaths journal targetMatchedPaths localPaths) := by
  refine sortedPaths_sort (nodup_expandFrom (nodup_ofList _)) fun p hp => ?_
  rcases mem_expandDeferredApplyPaths (mem_sort.mpr hp) with h | h | h
  · exact hdfr p h
  · exact hlocal p h
  · exact haff p h

/-- The queue runs empty: what conflicts with a deferred path is deferred. -/
lemma expandFrom_closed (hqueue : queue ⊆ deferred)
    (hfuel : queue.length + (candidates.filter fun candidate => !deferred.contains candidate).length
      ≤ fuel) (hcls : ∀ p ∈ deferred, p ∉ queue → ∀ candidate ∈ candidates,
      changedPathsConflict candidate p → candidate ∈ deferred)
    (hp : p ∈ expandFrom candidates fuel queue deferred) (hcand : candidate ∈ candidates)
    (hconf : changedPathsConflict candidate p) : candidate ∈ expandFrom candidates fuel queue deferred := by
  induction fuel generalizing queue deferred with
  | zero =>
    have hempty : queue = [] := length_eq_zero_iff.mp (by omega)
    exact hcls p hp (hempty ▸ not_mem_nil) candidate hcand hconf
  | succ fuel ih =>
    rw [expandFrom] at hp ⊢
    split at hp
    · rename_i hnone
      have hempty : queue = [] := List.getLast?_eq_none_iff.mp hnone
      exact hcls p hp (hempty ▸ not_mem_nil) candidate hcand hconf
    rename_i deferredPath hlast
    have hsplit : queue = queue.dropLast ++ [deferredPath] :=
      (dropLast_append_getLast? deferredPath hlast).symm
    have hlen : queue.length = queue.dropLast.length + 1 := by
      conv_lhs => rw [hsplit]
      rw [length_append, length_singleton]
    set added := candidates.filter fun candidate =>
      !deferred.contains candidate && changedPathsConflict candidate deferredPath with hadded
    have hmem : ∀ q, q ∈ added ↔
        q ∈ candidates ∧ q ∉ deferred ∧ changedPathsConflict q deferredPath = true := by
      intro q
      simp [hadded]
    refine ih ?_ ?_ ?_ hp
    · intro q hq
      rcases mem_append.mp hq with hq | hq
      · exact mem_addAll.mpr (.inl (hqueue (dropLast_subset _ hq)))
      · exact mem_addAll.mpr (.inr hq)
    · -- each candidate that is added leaves those that are still to come
      have hcount : (candidates.filter fun q => !(addAll deferred added).contains q).length
          + added.length = (candidates.filter fun q => !deferred.contains q).length := by
        have hrest : (candidates.filter fun q => !(addAll deferred added).contains q)
            = (candidates.filter fun q => !deferred.contains q).filter
              fun q => !changedPathsConflict q deferredPath := by
          rw [filter_filter]
          refine filter_congr fun q hq => ?_
          have hq' : q ∈ added ↔ q ∉ deferred ∧ changedPathsConflict q deferredPath = true :=
            (hmem q).trans (and_iff_right hq)
          rw [Bool.eq_iff_iff]
          simp only [contains_eq_mem, Bool.not_eq_true', mem_addAll, hq', and_eq_true,
            ← not_eq_true, decide_eq_true_eq]
          tauto
        have hnew : added = (candidates.filter fun q => !deferred.contains q).filter
            fun q => changedPathsConflict q deferredPath := by
          rw [filter_filter, hadded]
          exact filter_congr fun q _ => Bool.and_comm _ _
        rw [hrest, hnew, Nat.add_comm]
        exact (length_eq_length_filter_add _).symm
      rw [length_append]
      omega
    · intro q hq hnot r hr hconf
      by_cases hold : r ∈ deferred
      · exact mem_addAll.mpr (.inl hold)
      rcases mem_addAll.mp hq with hq | hq
      · by_cases heq : q = deferredPath
        · exact mem_addAll.mpr (.inr ((hmem r).mpr ⟨hr, hold, heq ▸ hconf⟩))
        refine absurd (hcls q hq (fun hque => ?_) r hr hconf) hold
        rw [hsplit, mem_append, mem_singleton] at hque
        rcases hque with hque | rfl
        · exact hnot (mem_append_left _ hque)
        · exact heq rfl
      · exact absurd (mem_append_right _ hq) hnot

/-- The bound on the loop is enough: the deferred paths are closed under conflicts. -/
lemma expandDeferredApplyPaths_closed (hp : p ∈ expandDeferredApplyPaths journal targetMatchedPaths localPaths)
    (hcand : candidate ∈ journal.affectedPaths) (hmatc : candidate ∉ targetMatchedPaths)
    (hconf : changedPathsConflict candidate p) :
    candidate ∈ expandDeferredApplyPaths journal targetMatchedPaths localPaths := by
  refine mem_sort.mpr (expandFrom_closed (List.Subset.refl _) ?_ ?_ (mem_sort.mp hp) ?_ hconf)
  · exact Nat.add_le_add_left (length_filter_le _ _) _
  · exact fun q hq hnot => absurd hq hnot
  · rw [mem_filter]
    exact ⟨hcand, by simpa using hmatc⟩

end Deferring

section Preflight

lemma valueAt_assign_of_ne (object : List (Path × β)) {key' : Path} (value : β)
    (h : key' ≠ key) : valueAt (assign object key value) key' = valueAt object key' := by
  rw [assign]
  split
  · rfl
  · exact valueAt_set_of_ne object value h

lemma valueAt_assign_self (object : List (Path × β)) (value : β)
    (h : key.text ≠ "__proto__") : valueAt (assign object key value) key = some value := by
  rw [assign, if_neg h]
  exact valueAt_set_self object key value

variable {γ : Type} {f : Path × Fingerprint → γ}

lemma valueAt_foldl_assign_of_notMem (h : p ∉ results.map Prod.fst) (object : List (Path × γ)) :
    valueAt (results.foldl (fun object r => assign object r.1 (f r)) object) p = valueAt object p := by
  induction results generalizing object with
  | nil => rfl
  | cons r results ih =>
    rw [map_cons, mem_cons, not_or] at h
    rw [foldl_cons, ih h.2, valueAt_assign_of_ne _ _ h.1]

/-- The keys of an object that is filled in, but for the one that names the prototype. -/
lemma valueAt_foldl_assign (hnodup : (results.map Prod.fst).Nodup) {r : Path × Fingerprint} (hr : r ∈ results)
    (hname : r.1.text ≠ "__proto__") (object : List (Path × γ)) :
    valueAt (results.foldl (fun object r => assign object r.1 (f r)) object) r.1 = some (f r) := by
  induction results generalizing object with
  | nil => cases hr
  | cons r' results ih =>
    rw [map_cons, nodup_cons] at hnodup
    rw [foldl_cons]
    rcases mem_cons.mp hr with rfl | hr
    · rw [valueAt_foldl_assign_of_notMem hnodup.1, valueAt_assign_self _ _ hname]
    · exact ih hnodup.2 hr _

end Preflight

section Saving
variable {u : SegmentNormalization} {hashes : FileHashes}
  {saved : Option (List (Path × Fingerprint))} {content : Path → FileReading}

lemma stageRecoveryBundleFiles_ok (h : stageRecoveryBundleFiles hashes content paths = .ok results) :
    results.map Prod.fst = paths ∧ ∀ r ∈ results, isPreflightFingerprint r.2 := by
  induction paths generalizing results with
  | nil =>
    cases h
    exact ⟨rfl, fun r hr => absurd hr not_mem_nil⟩
  | cons filePath paths ih =>
    rw [stageRecoveryBundleFiles] at h
    split at h
    · cases h
    rename_i fingerprint hfing
    split at h
    · rename_i rest hrest
      cases h
      obtain ⟨hpaths, hvalid⟩ := ih hrest
      refine ⟨by rw [map_cons, hpaths], fun r hr => ?_⟩
      rcases mem_cons.mp hr with rfl | hr
      · exact recoveryFileFingerprint_valid hfing
      · exact hvalid r hr
    · cases h

lemma stageRecoveryBundleFiles_error
    {filePath : Path} (h : stageRecoveryBundleFiles hashes content paths = .error filePath) : filePath ∈ paths := by
  induction paths with
  | nil => cases h
  | cons first paths ih =>
    rw [stageRecoveryBundleFiles] at h
    split at h
    · cases h
      exact mem_cons_self
    split at h
    · cases h
    rename_i changed hchg
    cases h
    exact mem_cons_of_mem _ (ih hchg)

lemma mem_stagedPaths (h : p ∈ stagedPaths paths) : p ∈ paths :=
  (mem_filter.mp (mem_sort.mp h)).1

/-- What planning changes of a journal once its affected paths are known. -/
structure Prepared (u : SegmentNormalization) (journal next : ApplyJournal) : Prop where
  same : next = { journal with
    affectedPaths := next.affectedPaths
    deferredLocalPaths := next.deferredLocalPaths
    preflightSha256 := next.preflightSha256
    preflightFingerprints := next.preflightFingerprints
    touchedPaths := next.touchedPaths }
  affected : next.affectedPaths.Sublist journal.affectedPaths
  deferred : sortedPaths u next.deferredLocalPaths = true

lemma Prepared.trans {last : ApplyJournal} (h : Prepared u journal next)
    (h' : Prepared u next last) : Prepared u journal last where
  same := by
    conv_lhs => rw [h'.same, h.same]
  affected := h'.affected.trans h.affected
  deferred := h'.deferred

/-- Deferring safe paths keeps the journal as it was planned. -/
lemma Prepared.deferring (hdfr : sortedPaths u journal.deferredLocalPaths)
    (haff : ∀ p ∈ journal.affectedPaths, isSafeJournalPath u p) (hlocal : ∀ p ∈ localPaths, isSafeJournalPath u p) :
    Prepared u journal (journal.deferring targetMatchedPaths localPaths) where
  same := rfl
  affected := refl _
  deferred := sortedPaths_expandDeferred (sortedPaths_safe hdfr) hlocal haff

/-- The paths that are saved are those still affected, and each has a fingerprint. -/
def Saves (journal : ApplyJournal) : Option (List (Path × Fingerprint)) → Prop
  | none => journal.affectedPaths = []
  | some results => results.map Prod.fst = stagedPaths journal.affectedPaths ∧
      ∀ r ∈ results, isPreflightFingerprint r.2 = true

lemma stageApplyRecoveryFiles_spec {attempts : List (Option (Path → FileReading))}
    (hdfr : sortedPaths u journal.deferredLocalPaths) (haff : ∀ p ∈ journal.affectedPaths, isSafeJournalPath u p)
    (h : stageApplyRecoveryFiles hashes journal journal.affectedPaths attempts = some (next, saved)) :
    Prepared u journal next ∧ next.preflightSha256 = journal.preflightSha256 ∧
      next.preflightFingerprints = journal.preflightFingerprints ∧ Saves next saved := by
  induction attempts generalizing journal with
  | nil =>
    obtain ⟨hempty, ⟨⟩⟩ := Option.ite_none_right_eq_some.mp h
    exact ⟨⟨rfl, refl _, hdfr⟩, rfl, rfl, isEmpty_iff.mp hempty⟩
  | cons attempt attempts ih =>
    unfold stageApplyRecoveryFiles at h
    split at h
    · rename_i hempty
      cases h
      exact ⟨⟨rfl, refl _, hdfr⟩, rfl, rfl, isEmpty_iff.mp hempty⟩
    split at h
    · cases h
    rename_i content
    split at h
    · rename_i results hres
      cases h
      exact ⟨⟨rfl, refl _, hdfr⟩, rfl, rfl, stageRecoveryBundleFiles_ok hres⟩
    rename_i filePath hchg
    have hsafe : isSafeJournalPath u filePath = true :=
      haff _ (mem_stagedPaths (stageRecoveryBundleFiles_error hchg))
    have hprep : Prepared u journal (journal.deferring [] [filePath]) :=
      Prepared.deferring hdfr haff fun p hp => mem_singleton.mp hp ▸ hsafe
    obtain ⟨-, h⟩ := Option.ite_none_left_eq_some.mp h
    set keeps := fun candidate =>
      !isDeferred (journal.deferring [] [filePath]).deferredLocalPaths candidate
    have hkept : Prepared u journal ((journal.deferring [] [filePath]).keeping keeps) :=
      ⟨rfl, filter_sublist, hprep.deferred⟩
    have hsafe : ∀ p ∈ ((journal.deferring [] [filePath]).keeping keeps).affectedPaths, _ :=
      fun p hp => haff p (hkept.affected.subset hp)
    obtain ⟨hnext, hsaved⟩ := ih hkept.deferred hsafe h
    exact ⟨hkept.trans hnext, hsaved⟩

/-- Every affected path has a content or none, and a fingerprint, on record. -/
structure Covered (journal : ApplyJournal) : Prop where
  sha256 : ∀ p ∈ journal.affectedPaths, ((valueAt journal.preflightSha256 p).any
    fun sha256 => sha256.all fun hash => isHex 64 hash.toList) = true
  fingerprints : ∀ p ∈ journal.affectedPaths,
    (valueAt journal.preflightFingerprints p).any isPreflightFingerprint = true

lemma Covered.deferring (h : Covered journal) : Covered (journal.deferring targetMatchedPaths localPaths) :=
  { h with }

lemma withPreflight_covered (haff : ∀ p ∈ journal.affectedPaths, isSafeJournalPath u p)
    (hnodup : journal.affectedPaths.Nodup) (hnamed : ∀ p ∈ journal.affectedPaths, p.text ≠ "__proto__")
    (hsaves : Saves journal (some results)) : Covered (journal.withPreflight results) := by
  obtain ⟨hpaths, hvalid⟩ := hsaves
  have hkeys : (results.map Prod.fst).Nodup := by
    rw [hpaths]
    exact nodup_sort (hnodup.filter _)
  have hres : ∀ p ∈ journal.affectedPaths, ∃ fingerprint, (p, fingerprint) ∈ results := by
    intro p hp
    have hmem : p ∈ results.map Prod.fst := by
      rw [hpaths, stagedPaths, mem_sort, mem_filter, isSafeJournalPath_not_obts (haff p hp)]
      exact ⟨hp, rfl⟩
    obtain ⟨r, hr, rfl⟩ := mem_map.mp hmem
    exact ⟨r.2, hr⟩
  constructor
  · intro p hp
    obtain ⟨fingerprint, hr⟩ := hres p hp
    have hvalue : valueAt (journal.withPreflight results).preflightSha256 p
        = some (contentHash fingerprint) :=
      valueAt_foldl_assign (f := fun r => contentHash r.2) hkeys hr (hnamed p hp) []
    rw [hvalue, Option.any_some]
    have hfing := hvalid _ hr
    cases fingerprint with
    | file sha256 oid => exact (and_eq_true_iff.mp hfing).1
    | missing | directory | other => rfl
  · intro p hp
    obtain ⟨fingerprint, hr⟩ := hres p hp
    have hvalue : valueAt (journal.withPreflight results).preflightFingerprints p = some fingerprint :=
      valueAt_foldl_assign (f := Prod.snd) hkeys hr (hnamed p hp) []
    rw [hvalue, Option.any_some]
    exact hvalid _ hr

lemma settlePreflight_spec {a : Arguments} {s : Surroundings} {settled : ApplyJournal}
    (hdfr : sortedPaths u journal.deferredLocalPaths)
    (haff : ∀ p ∈ journal.affectedPaths, isSafeJournalPath u p) (hnodup : journal.affectedPaths.Nodup)
    (hnamed : ∀ p ∈ journal.affectedPaths, p.text ≠ "__proto__") (hsaves : Saves journal saved)
    (h : settlePreflight u a s journal saved = some settled) : Prepared u journal settled ∧ Covered settled := by
  cases saved with
  | none =>
    cases h
    have hempty : journal.affectedPaths = [] := hsaves
    refine ⟨⟨rfl, refl _, hdfr⟩, ?_, ?_⟩
    · exact fun p hp => absurd (hempty ▸ hp) not_mem_nil
    · exact fun p hp => absurd (hempty ▸ hp) not_mem_nil
  | some results =>
    rw [settlePreflight] at h
    split at h
    · cases h
    cases h
    have hpaths : ∀ paths ∈ unexpectedPaths a s (consentBaseline u a s).1 results,
        ∀ p ∈ paths, isSafeJournalPath u p = true := by
      have hwhere : ∀ differs, ∀ p ∈ pathsWhere differs results, isSafeJournalPath u p = true := by
        intro differs p hp
        obtain ⟨r, hr, rfl⟩ := mem_map.mp hp
        have hmem := mem_map_of_mem (f := Prod.fst) (mem_filter.mp hr).1
        rw [hsaves.1] at hmem
        exact haff _ (mem_stagedPaths hmem)
      have hraced : ∀ p ∈ racedPaths a results, isSafeJournalPath u p = true := by
        rw [racedPaths]
        split
        · exact fun p hp => absurd hp not_mem_nil
        · exact hwhere _
      intro paths hpaths
      simp only [unexpectedPaths, mem_append] at hpaths
      rcases hpaths with (hpaths | hpaths) | hpaths
      all_goals
        split at hpaths
        · cases hpaths
        obtain rfl := mem_singleton.mp hpaths
        first
          | exact hraced
          | exact hwhere _
    have hcov := withPreflight_covered haff hnodup hnamed hsaves
    have hprep : Prepared u journal (journal.withPreflight results) :=
      ⟨rfl, refl _, hdfr⟩
    -- what is deferred in the end changes neither the affected paths nor their preflight
    generalize journal.withPreflight results = preflight at hcov hprep
    generalize unexpectedPaths a s (consentBaseline u a s).1 results = lists at hpaths
    induction lists generalizing preflight with
    | nil => exact ⟨hprep, hcov⟩
    | cons paths lists ih =>
      have hsafe : ∀ p ∈ preflight.affectedPaths, isSafeJournalPath u p = true :=
        fun p hp => haff p (hprep.affected.subset hp)
      refine ih (preflight.deferring [] paths) hcov.deferring ?_ ?_
      · exact hprep.trans (Prepared.deferring hprep.deferred hsafe (hpaths paths mem_cons_self))
      · exact fun other hother => hpaths other (mem_cons_of_mem _ hother)

end Saving

section Given
variable (u : SegmentNormalization) (c : Collation) (a : Arguments) (s : Surroundings)

/-- The ids are object ids, the paths of the trees and of the arguments are safe, and a confirmed
recovery comes with an inventory that covers its roots. -/
structure Given : Prop where
  target : isGitObjectId a.targetMain = true
  base : s.authoringBase.all isGitObjectId = true
  rootIgnore : s.policy.oid.all isGitObjectId = true
  targetFiles : ∀ p ∈ targetFiles s, isSafeJournalPath u p = true
  authoringFiles : ∀ p ∈ s.authoringTree.map Prod.fst, isSafeJournalPath u p = true
  extra : ∀ p ∈ a.extraAffectedPaths, isSafeJournalPath u p = true
  intents : ∀ intent ∈ a.directoryIntents, isSafeJournalPath u intent.path = true
  explicit : ∀ p ∈ a.explicitDirectories, isSafeJournalPath u p = true
  preserved : ∀ p ∈ a.catchupPreservedPaths, isSafeJournalPath u p = true
  roots : ∀ recovery, a.confirmedDirectoryRecovery = some recovery → pathArray u recovery.roots = true
  confirmed : ∀ recovery, a.confirmedDirectoryRecovery = some recovery →
    isValidDirectoryRecoveryInventory u recovery.inventory recovery.roots = true

/-- A path that the target gives another content, or that the caller names. -/
inductive Selected : Path → Prop where
  | changed {p : Path} (hmem : p ∈ a.changedPaths)
      (hdiffers : valueAt (authoringEntries s) p ≠ valueAt s.policy.entries p) : Selected p
  | consented {p : Path} {sha256 oid : String}
      (hmem : (p, .file sha256 oid) ∈ (consentBaseline u a s).1) : Selected p
  | extra {p : Path} (hmem : p ∈ a.extraAffectedPaths) : Selected p
  | written {p : Path} {oid : String} (hmem : (p, oid) ∈ s.policy.entries)
      (hdiffers : valueAt (authoringEntries s) p ≠ some oid) : Selected p

/-- A file that the target no longer has. -/
def Gone (p : Path) : Prop := p ∈ previousFiles s ∧ p ∉ targetFiles s

/-- A file of the vault above or below what is written or removed. -/
def InTheWay (inventory : Inventory) (p : Path) : Prop :=
  p ∈ inventory.files ∧ ∃ q, (q ∈ targetFiles s ∨ Selected u a s q ∨ Gone s q) ∧ (q < p ∨ p < q)

/-- What is retained keeps clear of what is written or removed, beyond the checks that the apply makes
itself. -/
structure Apart (inventory : Inventory) : Prop where
  selected : ∀ p, Selected u a s p → ∀ retained ∈ retainedPaths u c a s inventory, ¬ retained < p
  gone : ∀ p, Gone s p → p ∉ retainedPaths u c a s inventory →
    ∀ retained ∈ retainedPaths u c a s inventory, ¬ Overlap p retained
  inTheWay : ∀ p, InTheWay u a s inventory p → p ∉ retainedPaths u c a s inventory →
    ∀ retained ∈ retainedPaths u c a s inventory, ¬ Overlap p retained

/-- No such path is the name of an object's prototype. -/
def Named (inventory : Inventory) : Prop :=
  ∀ p, Selected u a s p ∨ Gone s p ∨ InTheWay u a s inventory p → p.text ≠ "__proto__"

end Given

section Scoped
variable {u : SegmentNormalization} {c : Collation} {a : Arguments} {s : Surroundings}
variable {inventory : Inventory} {p : Path}

lemma mem_keys_of_valueAt {entries : List (Path × String)} {oid : String}
    (h : valueAt entries p = some oid) : p ∈ entries.map Prod.fst := by
  by_contra hnot
  rw [valueAt_eq_none.mpr hnot] at h
  cases h

lemma authoringEntries_safe (h : Given u a s) : ∀ p ∈ (authoringEntries s).map Prod.fst, isSafeJournalPath u p := by
  rw [authoringEntries]
  split
  · exact h.authoringFiles
  · exact fun p hp => absurd hp not_mem_nil

lemma previousFiles_safe (h : Given u a s) : ∀ p ∈ previousFiles s, isSafeJournalPath u p :=
  fun p hp => authoringEntries_safe h p (mem_sort.mp hp)

/-- A path at which two trees differ is in one of them. -/
lemma safe_of_differs (h : Given u a s) (hdiff : valueAt (authoringEntries s) p ≠ valueAt s.policy.entries p) :
    isSafeJournalPath u p := by
  cases hbef : valueAt (authoringEntries s) p with
  | some oid => exact authoringEntries_safe h p (mem_keys_of_valueAt hbef)
  | none =>
    cases hafter : valueAt s.policy.entries p with
    | some oid => exact h.targetFiles p (mem_keys_of_valueAt hafter)
    | none => exact absurd (hbef.trans hafter.symm) hdiff

lemma consentBaseline_safe {fingerprint : Fingerprint}
    (h : (p, fingerprint) ∈ (consentBaseline u a s).1) : isSafeJournalPath u p := by
  rw [consentBaseline] at h
  split at h
  · cases h
  split at h
  · cases h
  rename_i fingerprints hread
  rw [readRecoveryBundleFingerprints, Option.filter_eq_some_iff, and_eq_true, all_eq_true] at hread
  exact (and_eq_true_iff.mp (hread.2.1 _ h)).1

lemma Selected.safe (h : Given u a s) (hp : Selected u a s p) : isSafeJournalPath u p := by
  cases hp with
  | changed hmem hdiff => exact safe_of_differs h hdiff
  | consented hmem => exact consentBaseline_safe hmem
  | extra hmem => exact h.extra p hmem
  | written hmem hdiff => exact h.targetFiles p (mem_map_of_mem (f := Prod.fst) hmem)

lemma deltaApplyScope_safe (h : Given u a s) (hscope : deltaApplyScope u c a s = some inventory) :
    (∀ p ∈ inventory.files, isSafeJournalPath u p) ∧ ∀ p ∈ inventory.directories, isSafeJournalPath u p := by
  have hpaths : ∀ p ∈ changedTreePaths (authoringEntries s) s.policy.entries,
      isSafeJournalPath u p = true := by
    intro p hp
    exact safe_of_differs h (of_decide_eq_true (mem_filter.mp (mem_sort.mp hp)).2)
  obtain ⟨-, ⟨⟩⟩ := Option.ite_none_right_eq_some.mp hscope
  constructor
  · exact fun p hp => hpaths p (mem_filter.mp hp).1
  · intro p hp
    exact isSafeJournalPath_directoryPrefixes hpaths p (mem_ofList.mp (mem_sort.mp hp))

/-- What the apply sees of the vault are safe paths. -/
lemma localVaultInventory_safe (h : Given u a s) (hinv : localVaultInventory u c a s = some inventory) :
    (∀ p ∈ inventory.files, isSafeJournalPath u p) ∧ ∀ p ∈ inventory.directories, isSafeJournalPath u p := by
  rw [localVaultInventory, Option.or_eq_some_iff] at hinv
  rcases hinv with hscope | ⟨-, hlst⟩
  · exact deltaApplyScope_safe h hscope
  obtain ⟨-, -, hdirs, -⟩ := listLocalVaultInventory_spec hlst
  constructor
  · exact fun p hp => isSafeJournalPath_iff.mpr (valid_of_mem_files hlst hp)
  intro p hp
  obtain ⟨hnorm, hvalid, -⟩ := ((hdirs p).mp hp).valid
  exact isSafeJournalPath_iff.mpr ⟨hnorm, hvalid⟩

lemma retainedPaths_spec (h : Given u a s) (hinv : localVaultInventory u c a s = some inventory) :
    (∀ p ∈ retainedPaths u c a s inventory, isSafeJournalPath u p) ∧
      ∃ paths : List Path, paths.Nodup ∧ retainedPaths u c a s inventory = sort paths := by
  obtain ⟨hfiles, hdirs⟩ := localVaultInventory_safe h hinv
  rw [retainedPaths]
  split
  · exact ⟨fun p hp => absurd hp not_mem_nil, [], nodup_nil, rfl⟩
  refine ⟨fun p hp => ?_, _, (nodup_ofList _).filter _, rfl⟩
  have hp := mem_ofList.mp (mem_filter.mp (mem_sort.mp hp)).1
  simp only [mem_append] at hp
  rcases hp with (hp | hp) | hp
  · exact previousFiles_safe h p hp
  · exact hfiles p hp
  · exact hdirs p hp

lemma protectsPath_iff : protectsPath localOnly p ↔ ∃ retained ∈ localOnly, p ≤ retained := by
  simp [protectsPath, pathsOverlapWithinRoot_iff]

/-- A planned path is selected, and nothing retained is at or below it; or it is gone, and not retained
itself. -/
lemma plannedPaths_spec (hcol : collides u c a s inventory = false)
    (hp : p ∈ plannedPaths a s (retainedPaths u c a s inventory) (consentBaseline u a s).1) :
    Selected u a s p ∧ (∀ retained ∈ retainedPaths u c a s inventory, ¬ p ≤ retained) ∨
      Gone s p ∧ p ∉ retainedPaths u c a s inventory := by
  have hclear : ∀ q, protectsPath (retainedPaths u c a s inventory) q = false →
      ∀ retained ∈ retainedPaths u c a s inventory, ¬ q ≤ retained := by
    intro q hq retained hret hle
    rw [protectsPath_iff.mpr ⟨retained, hret, hle⟩] at hq
    cases hq
  simp only [plannedPaths, mem_ofList, mem_append, mem_filter, mem_map,
    and_eq_true, Bool.not_eq_true', decide_eq_true_eq] at hp
  rcases hp with (((hp | hp) | hp) | hp) | hp
  · exact .inl ⟨.changed hp.1 hp.2.2, hclear p hp.2.1⟩
  · obtain ⟨⟨q, fingerprint⟩, ⟨hmem, hfile, hprot⟩, rfl⟩ := hp
    cases fingerprint with
    | file sha256 oid => exact .inl ⟨.consented hmem, hclear q hprot⟩
    | missing | directory | other => cases hfile
  · refine .inr ⟨⟨hp.1, ?_⟩, ?_⟩
    · simpa using hp.2.1
    · simpa using hp.2.2
  · exact .inl ⟨.extra hp.1, hclear p hp.2⟩
  · obtain ⟨⟨q, oid⟩, ⟨hmem, hdiff⟩, rfl⟩ := hp
    refine .inl ⟨.written hmem hdiff, fun retained hret hle => ?_⟩
    simp only [collides, Bool.or_eq_false_iff] at hcol
    have hcoll := hcol.1
    rw [← not_eq_true, localOnlyCollision, any_eq_true] at hcoll
    exact hcoll ⟨retained, hret, any_eq_true.mpr ⟨(q, oid), hmem, pathsOverlapWithinRoot_iff.mpr hle⟩⟩

lemma mem_materializationConflictFiles {files localFiles : List Path} :
    p ∈ materializationConflictFiles files localFiles ↔ p ∈ localFiles ∧ ∃ q ∈ files, q < p ∨ p < q := by
  simp only [materializationConflictFiles, mem_sort, mem_ofList, mem_flatMap, mem_append,
    mem_filter, Path.startsWithDir_iff_lt, mem_directoryPrefixes, contains_eq_mem,
    decide_eq_true_eq]
  constructor
  · rintro ⟨q, hq, ⟨hp, hlt⟩ | ⟨hlt, hp⟩⟩
    · exact ⟨hp, q, hq, .inl hlt⟩
    · exact ⟨hp, q, hq, .inr hlt⟩
  rintro ⟨hp, q, hq, hlt | hlt⟩
  · exact ⟨q, hq, .inl ⟨hp, hlt⟩⟩
  · exact ⟨q, hq, .inr ⟨hlt, hp⟩⟩

/-- The affected paths are safe, named, and apart from what is retained. -/
lemma scopedJournal_affected (h : Given u a s) (hinv : localVaultInventory u c a s = some inventory)
    (happ : Apart u c a s inventory) (hnamed : Named u a s inventory)
    (hcol : collides u c a s inventory = false) (hp : p ∈ (scopedJournal u c a s inventory).affectedPaths) :
    isSafeJournalPath u p ∧ p.text ≠ "__proto__" ∧
      ∀ retained ∈ retainedPaths u c a s inventory, ¬ Overlap p retained := by
  have hplan : ∀ q, q ∈ plannedPaths a s (retainedPaths u c a s inventory) (consentBaseline u a s).1 →
      Selected u a s q ∨ Gone s q := by
    intro q hq
    rcases plannedPaths_spec hcol hq with ⟨hsel, -⟩ | ⟨hgone, -⟩
    · exact .inl hsel
    · exact .inr hgone
  have hmem : p ∈ addAll (plannedPaths a s (retainedPaths u c a s inventory) (consentBaseline u a s).1)
      (materializationConflictFiles (ofList (targetFiles s ++
        plannedPaths a s (retainedPaths u c a s inventory) (consentBaseline u a s).1))
        inventory.files) := (mem_filter.mp (mem_sort.mp hp)).1
  rcases mem_addAll.mp hmem with hmem | hmem
  · rcases plannedPaths_spec hcol hmem with ⟨hsel, hclear⟩ | ⟨hgone, hfree⟩
    · refine ⟨hsel.safe h, hnamed p (.inl hsel), fun retained hret hover => ?_⟩
      rcases hover with hle | hle
      · exact hclear retained hret hle
      rcases hle.eq_or_lt with rfl | hlt
      · exact hclear retained hret le_rfl
      · exact happ.selected p hsel retained hret hlt
    · exact ⟨previousFiles_safe h p hgone.1, hnamed p (.inr (.inl hgone)), happ.gone p hgone hfree⟩
  · have hfree : p ∉ retainedPaths u c a s inventory := by
      intro hret
      simp only [collides, Bool.or_eq_false_iff] at hcol
      have hconf := hcol.2
      rw [← not_eq_true, any_eq_true] at hconf
      exact hconf ⟨p, hmem, by simpa using hret⟩
    obtain ⟨hfile, q, hq, hlt⟩ := mem_materializationConflictFiles.mp hmem
    have hway : InTheWay u a s inventory p := by
      refine ⟨hfile, q, ?_, hlt⟩
      rcases mem_append.mp (mem_ofList.mp hq) with hq | hq
      · exact .inl hq
      · exact .inr (hplan q hq)
    exact ⟨(localVaultInventory_safe h hinv).1 p hfile, hnamed p (.inr (.inr hway)), happ.inTheWay p hway hfree⟩

lemma mem_compactIntents {intents : List DirectoryIntent} {intent : DirectoryIntent}
    (h : intent ∈ compactIntents u c intents) : intent ∈ intents := by
  have hmem := (DirectoryIntents.mem_compactDirectoryIntents.mp h).mem
  obtain ⟨other, hother, hedit⟩ := mem_map.mp hmem
  exact (DirectoryIntent.edit_injective hedit) ▸ (mem_filter.mp hother).1

lemma admittedIntents_safe (h : Given u a s) :
    ∀ intent ∈ admittedIntents u c a s, isSafeJournalPath u intent.path :=
  fun intent hintent => h.intents intent (mem_compactIntents (mem_filter.mp hintent).1)

lemma explicitDirectorySet_spec (h : Given u a s) : pathArray u (explicitDirectorySet u a s) :=
  pathArray_sort ((nodup_ofList _).filter _) fun p hp =>
    h.explicit p (mem_ofList.mp (mem_filter.mp hp).1)

lemma intentsWithImplied_safe (h : Given u a s) :
    ∀ intent ∈ intentsWithImplied u c a s localOnly, isSafeJournalPath u intent.path := by
  intro intent hintent
  rcases mem_append.mp (mem_compactIntents hintent) with hmem | hmem
  · exact admittedIntents_safe h intent (mem_filter.mp hmem).1
  obtain ⟨dirPath, hdir, rfl⟩ := mem_map.mp hmem
  exact isSafeJournalPath_directoryPrefixes (previousFiles_safe h) dirPath
    (mem_filter.mp (mem_of_mem_topmostDirectories hdir)).1

variable (u c a s) in
lemma draftJournal_sizes : isTargetFileSizeMap u (draftJournal u c a s).targetFileSizes := by
  simp only [draftJournal]
  split
  · rename_i hsizes
    exact isTargetFileSizeMap_copy hsizes rfl
  · rfl

variable (u c a s) in
lemma draftJournal_eventSeq : (draftJournal u c a s).eventSeq.all (· ≤ maxSafeInteger) := by
  rw [draftJournal, Option.all_eq_true]
  intro seq hseq
  exact (Option.filter_eq_some_iff.mp hseq).2

/-- The directories of a journal that keeps those of the draft. -/
lemma checkDirectories_of (h : Given u a s)
    (hints : ∀ intent ∈ journal.directoryIntents, isSafeJournalPath u intent.path)
    (hexpl : journal.explicitDirectories = explicitDirectorySet u a s)
    (hdirs : pathArray u journal.preApplyDirectories)
    (hctim : journal.preApplyDirectoryCtimes.map Prod.fst = journal.preApplyDirectories)
    (hroots : journal.confirmedDirectoryRoots = (draftJournal u c a s).confirmedDirectoryRoots)
    (hinv : journal.confirmedDirectoryInventory = (draftJournal u c a s).confirmedDirectoryInventory)
    (hseq : journal.eventSeq = (draftJournal u c a s).eventSeq) : checkDirectories u journal := by
  have hctiA : (journal.preApplyDirectories.all fun dirPath =>
      (valueAt journal.preApplyDirectoryCtimes dirPath).isSome) = true := by
    refine all_eq_true.mpr fun dirPath hdir => ?_
    rw [Option.isSome_iff_ne_none, ne_eq, valueAt_eq_none, not_not, hctim]
    exact hdir
  have hlen : journal.preApplyDirectoryCtimes.length = journal.preApplyDirectories.length := by
    rw [← hctim, length_map]
  have hcfm : pathArray u (draftJournal u c a s).confirmedDirectoryRoots = true ∧
      ((draftJournal u c a s).confirmedDirectoryInventory.all fun inventory =>
        isValidDirectoryRecoveryInventory u inventory (draftJournal u c a s).confirmedDirectoryRoots)
        = true ∧
      ((draftJournal u c a s).confirmedDirectoryInventory.isNone &&
        !(draftJournal u c a s).confirmedDirectoryRoots.isEmpty) = false := by
    cases hrec : a.confirmedDirectoryRecovery with
    | none =>
      simp only [draftJournal, hrec]
      exact ⟨rfl, rfl, rfl⟩
    | some recovery =>
      simp only [draftJournal, hrec]
      exact ⟨h.roots recovery hrec, h.confirmed recovery hrec, rfl⟩
  rw [checkDirectories, all_eq_true.mpr hints, hexpl, explicitDirectorySet_spec h,
    hdirs, hctiA, hroots, hinv, hseq, hcfm.1, hcfm.2.1, hcfm.2.2,
    draftJournal_eventSeq u c a s, decide_eq_true hlen]
  rfl

lemma checkLocalOnly_of (h : Given u a s) (hrooI : journal.targetRootIgnoreOid = s.policy.oid)
    (hnodup : paths.Nodup) (hpaths : journal.localOnlyPaths = sort paths)
    (hsafe : ∀ p ∈ journal.localOnlyPaths, isSafeJournalPath u p)
    (hpres : journal.localOnlyPresence.map Prod.fst = journal.localOnlyPaths)
    (hclear : ∀ p ∈ journal.affectedPaths, ∀ retained ∈ journal.localOnlyPaths, ¬ Overlap p retained) :
    checkLocalOnly u journal := by
  have hsort : sortedPaths u journal.localOnlyPaths = true := by
    rw [hpaths]
    exact sortedPaths_sort hnodup fun p hp => hsafe p (hpaths ▸ mem_sort.mpr hp)
  have hkeys : sort (journal.localOnlyPresence.map Prod.fst) = journal.localOnlyPaths := by
    rw [hpres, hpaths]
    exact sort_eq_of_perm (sortBy_perm _ _)
  have hapart : (journal.localOnlyPaths.any fun filePath => journal.affectedPaths.any fun affected =>
      affected = filePath || affected.startsWithDir filePath || filePath.startsWithDir affected)
      = false := by
    rw [← not_eq_true, any_eq_true]
    rintro ⟨retained, hret, hany⟩
    obtain ⟨affected, haff, hover⟩ := any_eq_true.mp hany
    exact hclear affected haff retained hret (pathsOverlap_iff.mp hover)
  rw [checkLocalOnly, hrooI, h.rootIgnore, hsort, hapart, decide_eq_true hkeys]
  rfl

/-- The checks of a journal of the writer's version. -/
lemma parseApplyJournal_of (hvers : journal.journalVersion = 7)
    (haff : checkAffected u journal) (hfing : checkFingerprints journal)
    (hdirs : checkDirectories u journal) (hsizes : isTargetFileSizeMap u journal.targetFileSizes)
    (hlocO : checkLocalOnly u journal) (hdfr : sortedPaths u journal.deferredLocalPaths)
    (hauth : checkAuthoring u journal) : parseApplyJournal u journal = some journal := by
  simp [parseApplyJournal, hvers, haff, hfing, hdirs, hsizes, hlocO, hdfr, hauth]

lemma planned_safe (h : Given u a s) (hcol : collides u c a s inventory = false) :
    ∀ q ∈ plannedPaths a s (retainedPaths u c a s inventory) (consentBaseline u a s).1, isSafeJournalPath u q := by
  intro q hq
  rcases plannedPaths_spec hcol hq with ⟨hsel, -⟩ | ⟨hgone, -⟩
  · exact hsel.safe h
  · exact previousFiles_safe h q hgone.1

/-- The scoped journal with what a catch-up preserves. -/
lemma catchupJournal_prepared (h : Given u a s) (hcol : collides u c a s inventory = false)
    (hsafe : ∀ q ∈ (scopedJournal u c a s inventory).affectedPaths, isSafeJournalPath u q) :
    Prepared u (scopedJournal u c a s inventory) (catchupJournal a (scopedJournal u c a s inventory)) := by
  have hdfr : sortedPaths u (scopedJournal u c a s inventory).deferredLocalPaths = true := by
    simp only [scopedJournal]
    split
    · refine sortedPaths_expandDeferred ?_ (planned_safe h hcol) ?_
      · exact fun q hq => absurd hq not_mem_nil
      · exact fun q hq => absurd hq not_mem_nil
    · rfl
  rw [catchupJournal]
  split
  · exact Prepared.deferring hdfr hsafe h.preserved
  · exact ⟨rfl, refl _, hdfr⟩

lemma withTouched_safe (h : Given u a s) (hinv : localVaultInventory u c a s = some inventory)
    (haff : ∀ q ∈ journal.affectedPaths, isSafeJournalPath u q) (hdfr : sortedPaths u journal.deferredLocalPaths)
    (hints : ∀ intent ∈ journal.directoryIntents, isSafeJournalPath u intent.path) :
    ∀ q ∈ (withTouched u c a s inventory journal).touchedPaths, isSafeJournalPath u q := by
  intro q hq
  have hq := mem_ofList.mp (mem_sort.mp hq)
  simp only [mem_append, mem_filter, mem_map] at hq
  rcases hq with ((⟨hq, -⟩ | hq) | ⟨intent, hintent, rfl⟩) | ⟨hq, -⟩
  · exact haff q hq
  · split at hq
    · exact sortedPaths_safe hdfr q hq
    · cases hq
  · exact hints intent hintent
  · split at hq
    · exact (localVaultInventory_safe h hinv).2 q hq
    rcases mem_append.mp hq with hq | hq
    · exact (pathArray_iff.mp (explicitDirectorySet_spec h)).1 q hq
    · exact isSafeJournalPath_directoryPrefixes h.targetFiles q hq

/-- The journal that is planned: it is read back, and it begins where the apply does. -/
structure Planned (u : SegmentNormalization) (a : Arguments) (s : Surroundings)
    (journal : ApplyJournal) : Prop where
  accepted : parseApplyJournal u journal = some journal
  version : journal.journalVersion = 7
  phase : journal.phase = .planned
  unnamed : journal.recoveryBundleId = none
  target : journal.targetMain = a.targetMain
  prior : journal.expectedPriorLocalMain = s.state.localMain
  operation : journal.operationType = if a.rebuild then .rebuildFromServer else .pullApply

/-- The draft is the journal of an apply that moves the refs only. -/
lemma draftJournal_planned (h : Given u a s) : Planned u a s (draftJournal u c a s) := by
  refine ⟨parseApplyJournal_of rfl ?_ rfl ?_ (draftJournal_sizes u c a s) ?_ rfl ?_, rfl, rfl, rfl, rfl, rfl, rfl⟩
  · simp only [checkAffected, draftJournal, h.target]
    rfl
  · exact checkDirectories_of (c := c) h (admittedIntents_safe h) rfl rfl rfl rfl rfl rfl
  · exact checkLocalOnly_of h rfl nodup_nil rfl (fun p hp => absurd hp not_mem_nil) rfl
      fun p hp => absurd hp not_mem_nil
  · simp only [checkAuthoring, draftJournal, h.base]
    rfl

lemma planJournal_planned {hashes : FileHashes} (h : Given u a s)
    (hcond : ∀ inventory, localVaultInventory u c a s = some inventory →
      Apart u c a s inventory ∧ Named u a s inventory)
    (hplan : planJournal u c hashes a s = some journal) : Planned u a s journal := by
  obtain ⟨inventory, hinv, hplan⟩ := Option.bind_eq_some_iff.mp hplan
  split at hplan
  · cases hplan
  rename_i hcol
  have hcol : collides u c a s inventory = false := not_eq_true _ ▸ hcol
  obtain ⟨⟨staged, saved⟩, hstage, hplan⟩ := Option.bind_eq_some_iff.mp hplan
  obtain ⟨settled, hsett, hplan⟩ := Option.bind_eq_some_iff.mp hplan
  cases hplan
  obtain ⟨happ, hnamed⟩ := hcond inventory hinv
  have hrch : ∀ q ∈ (scopedJournal u c a s inventory).affectedPaths, _ := fun q hq =>
    scopedJournal_affected h hinv happ hnamed hcol hq
  have hnodup : (scopedJournal u c a s inventory).affectedPaths.Nodup :=
    nodup_sort ((nodup_addAll (nodup_ofList _)).filter _)
  -- from the scoped journal to the settled one only the affected and deferred paths change
  have hcatc := catchupJournal_prepared h hcol fun q hq => (hrch q hq).1
  obtain ⟨hstg, -, -, hsaves⟩ := stageApplyRecoveryFiles_spec hcatc.deferred
    (fun q hq => (hrch q (hcatc.affected.subset hq)).1) hstage
  have hscop := hcatc.trans hstg
  obtain ⟨hstl, hcov⟩ := settlePreflight_spec hscop.deferred
    (fun q hq => (hrch q (hscop.affected.subset hq)).1) (hnodup.sublist hscop.affected)
    (fun q hq => (hrch q (hscop.affected.subset hq)).2.1) hsaves hsett
  have hprep := hscop.trans hstl
  have hsame := hprep.same
  have haff : ∀ q ∈ settled.affectedPaths, _ := fun q hq =>
    hrch q (hprep.affected.subset hq)
  have hints : ∀ intent ∈ settled.directoryIntents, isSafeJournalPath u intent.path = true := by
    rw [hsame]
    exact intentsWithImplied_safe h
  have htouc := withTouched_safe h hinv (fun q hq => (haff q hq).1) hprep.deferred
    hints
  obtain ⟨hret, paths, hpaths, hsort⟩ := retainedPaths_spec h hinv
  have htgt : settled.targetMain = a.targetMain := by rw [hsame]; rfl
  have hbase : settled.authoringBase = s.authoringBase := by rw [hsame]; rfl
  have hlocO : settled.localOnlyPaths = retainedPaths u c a s inventory := by rw [hsame]; rfl
  refine ⟨parseApplyJournal_of ?_ ?_ ?_ ?_ ?_ ?_ hprep.deferred ?_, ?_, ?_, ?_, htgt, ?_, ?_⟩
  · rw [hsame]
    rfl
  · have hvers : settled.journalVersion = 7 := by rw [hsame]; rfl
    have harray : pathArray u settled.affectedPaths = true :=
      pathArray_iff.mpr ⟨fun q hq => (haff q hq).1, hnodup.sublist hprep.affected⟩
    simp only [checkAffected, withTouched, hvers, htgt, h.target, harray, all_eq_true.mpr hcov.sha256]
    rfl
  · exact all_eq_true.mpr hcov.fingerprints
  · refine checkDirectories_of (c := c) h hints ?_ ?_ ?_ ?_ ?_ ?_
    · rw [hsame]
      rfl
    · rw [hsame]
      exact pathArray_sort (nodup_ofList _) fun q hq =>
        (localVaultInventory_safe h hinv).2 q (mem_ofList.mp hq)
    · change settled.preApplyDirectoryCtimes.map Prod.fst = settled.preApplyDirectories
      rw [hsame]
      simp only [scopedJournal, map_map]
      exact map_id _
    · rw [hsame]
      rfl
    · rw [hsame]
      rfl
    · rw [hsame]
      rfl
  · rw [hsame]
    exact draftJournal_sizes u c a s
  · refine checkLocalOnly_of h ?_ hpaths (hlocO.trans hsort) ?_ ?_ ?_
    · rw [hsame]
      rfl
    · change ∀ q ∈ settled.localOnlyPaths, _
      rw [hlocO]
      exact hret
    · change settled.localOnlyPresence.map Prod.fst = settled.localOnlyPaths
      rw [hsame]
      simp only [scopedJournal, map_map]
      exact map_id _
    · change ∀ q ∈ settled.affectedPaths, ∀ retained ∈ settled.localOnlyPaths, _
      rw [hlocO]
      exact fun q hq => (haff q hq).2.2
  · have hauth : settled.authoringBase.all isGitObjectId = true := hbase ▸ h.base
    rw [checkAuthoring, all_eq_true.mpr htouc]
    exact and_eq_true_iff.mpr ⟨hauth, rfl⟩
  · rw [hsame]
    rfl
  · rw [hsame]
    rfl
  · rw [hsame]
    rfl
  · rw [hsame]
    rfl
  · rw [hsame]
    rfl

end Scoped

end ApplyJournals
