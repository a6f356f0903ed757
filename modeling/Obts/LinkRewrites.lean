import Obts.LinkIndex

/-!
# Where rewritten links lead

A text that is tried is used when it leads to the file. The last text, the path of the file, is used without a
test; it leads there unless the link is a Markdown one from a folder in which some file has that path.
-/
namespace LinkRewrites

open List
open InsertionOrder PortableNames NameRepair RepairFolders RepairPlans LinkIndex

/-- A path without empty segments and steps. -/
def Straight (path : List Char) : Prop :=
  ∀ segment ∈ path.splitOn '/', segment ≠ [] ∧ segment ≠ ['.'] ∧ segment ≠ ['.', '.']

variable {slash : List Char}

section Straight
variable {path directory segment : List Char} {segments kept : List (List Char)}

/-- A segment that stays. -/
def stays (segment : List Char) : Bool := segment ≠ [] && segment ≠ ['.']

/-- Where no segment is a step up, those that stay are kept. -/
lemma foldl_stepSegment (h : ∀ segment ∈ segments, segment ≠ ['.', '.']) (allowAboveRoot : Bool) :
    segments.foldl (stepSegment allowAboveRoot) kept = kept ++ segments.filter stays := by
  induction segments generalizing kept with
  | nil => exact (append_nil kept).symm
  | cons segment segments ih =>
    rw [forall_mem_cons] at h
    rw [foldl_cons, ih h.2]
    by_cases hempty : segment = [] ∨ segment = ['.']
    · have hstep : stepSegment allowAboveRoot kept segment = kept := by
        rcases hempty with rfl | rfl <;> simp [stepSegment]
      have hflt : (segment :: segments).filter stays = segments.filter stays := by
        rcases hempty with rfl | rfl <;> simp [stays]
      rw [hstep, hflt]
    · rw [not_or] at hempty
      simp [stepSegment, stays, hempty, h.1]

lemma filter_stays (h : Straight path) : (path.splitOn '/').filter stays = path.splitOn '/' := by
  rw [filter_eq_self]
  intro segment hseg
  obtain ⟨hne, hdot, -⟩ := h segment hseg
  simp [stays, hne, hdot]

lemma Straight.ne_nil (h : Straight path) : path ≠ [] := by
  rintro rfl
  exact (h [] (mem_singleton_self [])).1 rfl

lemma Straight.head (h : Straight path) : path.head? ≠ some '/' := by
  intro hhead
  obtain ⟨rest, rfl⟩ := head?_eq_some_iff.mp hhead
  have hsplit := splitOn_append_cons_self (a := '/') [] rest
  exact (h [] (hsplit ▸ mem_cons_self)).1 rfl

lemma Straight.last (h : Straight path) : path.getLast? ≠ some '/' := by
  intro hlast
  obtain ⟨front, rfl⟩ := getLast?_eq_some_iff.mp hlast
  have hsplit := splitOn_append_cons_self (a := '/') front []
  exact (h [] (hsplit ▸ mem_append_right _ (mem_singleton_self []))).1 rfl

lemma Straight.below (h : Straight directory) (hpath : Straight path) : Straight (directory ++ '/' :: path) := by
  rw [Straight, splitOn_append_cons_self, forall_mem_append]
  exact ⟨h, hpath⟩

lemma Straight.ne_step (h : Straight path) : path ≠ ['.'] ∧ path ≠ ['.', '.'] := by
  constructor
  · rintro rfl
    exact (h ['.'] (by decide)).2.1 rfl
  · rintro rfl
    exact (h ['.', '.'] (by decide)).2.2 rfl

lemma Straight.not_step_isPrefixOf (h : Straight path) :
    ['.', '/'].isPrefixOf path = false ∧ ['.', '.', '/'].isPrefixOf path = false := by
  have hfirst : ∀ step : List Char, '/' ∉ step → (step ++ ['/']).isPrefixOf path = true →
      step ∈ path.splitOn '/' := by
    intro step hstep hpre
    obtain ⟨rest, rfl⟩ := isPrefixOf_iff_prefix.mp hpre
    rw [append_assoc, singleton_append, splitOn_append_cons_self, splitOn_eq_singleton hstep]
    exact mem_append_left _ (mem_singleton_self step)
  constructor
  · rw [← Bool.not_eq_true]
    exact fun hpre => (h ['.'] (hfirst ['.'] (by decide) hpre)).2.1 rfl
  · rw [← Bool.not_eq_true]
    exact fun hpre => (h ['.', '.'] (hfirst ['.', '.'] (by decide) hpre)).2.2 rfl

lemma Straight.dropWhile_slash (h : Straight path) : path.dropWhile (· = '/') = path := by
  cases hpath : path with
  | nil => rfl
  | cons c rest =>
    have hc : c ≠ '/' := by
      rintro rfl
      exact h.head (hpath ▸ rfl)
    simpa using hc

/-- What `normalize` makes of a relative path without steps up. -/
lemma normalize_eq (kept : List (List Char)) (hhead : path.head? ≠ some '/') (hlast : path.getLast? ≠ some '/')
    (hup : ∀ segment ∈ path.splitOn '/', segment ≠ ['.', '.']) (hkept : (path.splitOn '/').filter stays = kept)
    (hne : kept ≠ []) : LinkIndex.normalize path = ['/'].intercalate kept := by
  have hpath : path ≠ [] := by
    rintro rfl
    exact hne (hkept ▸ rfl)
  have hnorm : normalizeString path true = kept := by
    rw [normalizeString, foldl_stepSegment hup, nil_append, hkept]
  rw [LinkIndex.normalize, if_neg hpath, decide_eq_false hhead, decide_eq_false hlast]
  simp [hnorm, if_neg hne]

lemma normalize_of_straight (h : Straight path) : LinkIndex.normalize path = path := by
  rw [normalize_eq (path.splitOn '/') h.head h.last (fun segment hseg => (h segment hseg).2.2) (filter_stays h)
    (splitOn_ne_nil '/' path), intercalate_splitOn]

/-- The path of a file as it is read from a folder, with or without a slash before it. -/
lemma relativeReading_eq (hpath : Straight path) (hdir : directory = [] ∨ Straight directory)
    (hslash : slash = [] ∨ slash = ['/']) :
    relativeReading (slash ++ path) directory = if directory = [] then path else directory ++ '/' :: path := by
  have hslaP : slash ++ path ≠ [] := by
    rcases hslash with rfl | rfl
    · exact hpath.ne_nil
    · simp
  have hsplit : ((slash ++ path).splitOn '/').filter stays = path.splitOn '/' := by
    rcases hslash with rfl | rfl
    · exact filter_stays hpath
    rw [singleton_append, show '/' :: path = [] ++ '/' :: path from rfl, splitOn_append_cons_self,
      filter_append, filter_stays hpath]
    rfl
  have hup : ∀ segment ∈ (slash ++ path).splitOn '/', segment ≠ ['.', '.'] := by
    rcases hslash with rfl | rfl
    · exact fun segment hseg => (hpath segment hseg).2.2
    rw [singleton_append, show '/' :: path = [] ++ '/' :: path from rfl, splitOn_append_cons_self,
      forall_mem_append]
    exact ⟨by decide, fun segment hseg => (hpath segment hseg).2.2⟩
  have hlast : ∀ front : List Char, (front ++ '/' :: (slash ++ path)).getLast? ≠ some '/' := by
    intro front
    rw [getLast?_append_of_ne_nil _ (cons_ne_nil _ _), ← cons_append, getLast?_append_of_ne_nil _ hpath.ne_nil]
    exact hpath.last
  have hjoin : ∀ front : List Char, front ≠ [] →
      join front (slash ++ path) = LinkIndex.normalize (front ++ '/' :: (slash ++ path)) := by
    intro front hfront
    rw [join]
    congr 1
    simp [hfront, hslaP, intercalate]
  rw [relativeReading]
  rcases hdir with rfl | hdir
  · rw [if_pos rfl, if_pos rfl, hjoin ['.'] (by decide), normalize_eq (path.splitOn '/') (by simp) (hlast _)]
    · rw [intercalate_splitOn, normalize_of_straight hpath]
    · rw [splitOn_append_cons_self, forall_mem_append]
      exact ⟨by decide, hup⟩
    · rw [splitOn_append_cons_self, filter_append, hsplit]
      rfl
    · exact splitOn_ne_nil '/' path
  · have hboth := hdir.below hpath
    have hhead : (directory ++ '/' :: (slash ++ path)).head? ≠ some '/' := by
      rw [head?_append_of_ne_nil _ hdir.ne_nil]
      exact hdir.head
    rw [if_neg hdir.ne_nil, if_neg hdir.ne_nil, hjoin directory hdir.ne_nil,
      normalize_eq ((directory ++ '/' :: path).splitOn '/') hhead (hlast _)]
    · rw [intercalate_splitOn, normalize_of_straight hboth]
    · rw [splitOn_append_cons_self, forall_mem_append]
      exact ⟨fun segment hseg => (hdir segment hseg).2.2, hup⟩
    · rw [splitOn_append_cons_self, filter_append, hsplit, filter_stays hdir, splitOn_append_cons_self]
    · exact splitOn_ne_nil '/' _

end Straight

section Index
variable {u : CaseFolding} {index : VaultLinkIndex} {path found other linkpath source : List Char}
  {style : LinkStyle} {resolution : Resolution}

lemma mem_byKey {key : List Char} : path ∈ index.byKey u key ↔ path ∈ index.paths ∧ foldPathCase u path = key := by
  rw [VaultLinkIndex.byKey, mem_filter, decide_eq_true_eq]

lemma lookup_of_mem (h : path ∈ index.paths) : index.lookup u path = some path := by
  rw [VaultLinkIndex.lookup, find?_cons_of_pos]
  simpa using h

/-- What is found is a path of the index, alike with or without the extension. -/
lemma lookup_eq_some (h : index.lookup u path = some found) :
    found ∈ index.paths ∧ (foldPathCase u found = foldPathCase u path ∨
      foldPathCase u found = foldPathCase u (path ++ markdownExtension)) := by
  rw [VaultLinkIndex.lookup] at h
  split at h
  · rename_i exact hexact
    obtain rfl := Option.some.inj h
    have hin : exact ∈ index.paths := by simpa using find?_some hexact
    have hcand := mem_of_find?_eq_some hexact
    simp only [mem_cons, not_mem_nil, or_false] at hcand
    exact ⟨hin, hcand.imp (congrArg (foldPathCase u)) (congrArg (foldPathCase u))⟩
  · obtain ⟨candidate, hcand, hmat⟩ := exists_of_findSome?_eq_some h
    split at hmat
    · rename_i only honly
      obtain rfl := Option.some.inj hmat
      have hin : only ∈ index.byKey u (foldPathCase u candidate) := honly ▸ mem_singleton_self only
      obtain ⟨hpath, hkey⟩ := mem_byKey.mp hin
      simp only [mem_cons, not_mem_nil, or_false] at hcand
      exact ⟨hpath, hcand.imp (fun heq => by rw [hkey, heq]) (fun heq => by rw [hkey, heq])⟩
    · cases hmat

/-- Where no two paths are alike, nothing is found just when no path is alike with or without the extension. -/
lemma lookup_eq_none_iff (hnodup : (index.paths.map (foldPathCase u)).Nodup) : index.lookup u path = none ↔
    ∀ other ∈ index.paths, foldPathCase u other ≠ foldPathCase u path ∧
      foldPathCase u other ≠ foldPathCase u (path ++ markdownExtension) := by
  have honly : ∀ candidate, ∀ other ∈ index.paths, foldPathCase u other = foldPathCase u candidate →
      index.byKey u (foldPathCase u candidate) = [other] := by
    intro candidate other hother hkey
    have hall : ∀ path ∈ index.byKey u (foldPathCase u candidate), path = other := by
      intro path hpath
      obtain ⟨hin, hfold⟩ := mem_byKey.mp hpath
      exact inj_on_of_nodup_map hnodup hin hother (hfold.trans hkey.symm)
    have hrepl := eq_replicate_of_mem hall
    have hdist : (index.byKey u (foldPathCase u candidate)).Nodup := (hnodup.of_map _).filter _
    have hpos : (index.byKey u (foldPathCase u candidate)).length ≠ 0 := by
      have := length_pos_of_mem (mem_byKey.mpr ⟨hother, hkey⟩)
      omega
    rw [hrepl] at hdist
    have hle := nodup_replicate.mp hdist
    rw [hrepl, show (index.byKey u (foldPathCase u candidate)).length = 1 by omega]
    rfl
  constructor
  · intro hnone other hother
    rw [VaultLinkIndex.lookup] at hnone
    split at hnone
    · cases hnone
    rw [findSome?_eq_none_iff] at hnone
    have hcand : ∀ candidate ∈ [path, path ++ markdownExtension],
        foldPathCase u other ≠ foldPathCase u candidate := by
      intro candidate hin hkey
      have hmat := hnone candidate hin
      rw [honly candidate other hother hkey] at hmat
      cases hmat
    exact ⟨hcand path (by simp), hcand _ (by simp)⟩
  · intro hall
    cases hfound : index.lookup u path with
    | none => rfl
    | some found =>
      obtain ⟨hin, hkey⟩ := lookup_eq_some hfound
      exact absurd hkey (not_or.mpr (hall found hin))

lemma suffixMatch_mem {directory : List Char} (h : index.suffixMatch u linkpath directory = some found) :
    found ∈ index.paths := by
  have hin := mem_of_head? h
  rw [mem_sortBy, mem_ofList, mem_flatMap] at hin
  obtain ⟨option, -, hmatch⟩ := hin
  exact mem_of_mem_filter (mem_of_mem_filter hmatch)

/-- A link leads to a path of the index. -/
lemma resolve_mem (h : index.resolve u linkpath source style = some resolution) : resolution.path ∈ index.paths := by
  rw [VaultLinkIndex.resolve] at h
  split at h
  · cases h
  dsimp only at h
  split at h
  · rename_i path hfound
    cases h
    obtain ⟨-, hfound⟩ := Option.ite_none_right_eq_some.mp hfound
    exact (lookup_eq_some hfound).1
  split at h
  · cases h
  split at h
  · rename_i path hfound
    cases h
    exact (lookup_eq_some hfound).1
  · obtain ⟨path, hmatch, rfl⟩ := Option.map_eq_some_iff.mp h
    exact suffixMatch_mem hmatch

lemma length_splitOn_append (front rest : List Char) (h : '/' ∉ rest) :
    ((front ++ rest).splitOn '/').length = (front.splitOn '/').length := by
  rcases segment_or_below front with hfront | ⟨folder, name, rfl, hname⟩
  · have hboth : '/' ∉ front ++ rest := by
      rw [mem_append, not_or]
      exact ⟨hfront, h⟩
    rw [splitOn_eq_singleton hboth, splitOn_eq_singleton hfront]
    rfl
  · have hlast : '/' ∉ name ++ rest := by
      rw [mem_append, not_or]
      exact ⟨hname, h⟩
    rw [append_assoc, cons_append, splitOn_below folder hlast, splitOn_below folder hname,
      length_append, length_append, length_singleton, length_singleton]

/-- A path and what is read from a folder under its name have different folded forms. -/
lemma foldPathCase_ne_below (directory path rest : List Char) (hrest : '/' ∉ rest) :
    foldPathCase u path ≠ foldPathCase u (directory ++ '/' :: path ++ rest) := by
  intro heq
  have hlen := congrArg (fun text => (text.splitOn '/').length) heq
  have hslash : '/' ∈ ['/', ' ', '(', ')'] := mem_cons_self
  simp only [foldPathCase_splitOn hslash, length_map, length_splitOn_append _ rest hrest,
    splitOn_append_cons_self, length_append] at hlen
  have hpos := length_pos_of_ne_nil (splitOn_ne_nil '/' directory)
  omega

/-- Some file is alike to a path below a folder, with or without the extension. -/
def Shadowed (u : CaseFolding) (index : VaultLinkIndex) (directory target : List Char) : Prop :=
  ∃ other ∈ index.paths, foldPathCase u other = foldPathCase u (directory ++ '/' :: target) ∨
    foldPathCase u other = foldPathCase u (directory ++ '/' :: target ++ markdownExtension)

lemma sourceDirectoryOf_cases (h : dirname source = ['.'] ∨ Straight (dirname source)) :
    sourceDirectoryOf source = [] ∧ dirname source = ['.'] ∨
      Straight (sourceDirectoryOf source) ∧ sourceDirectoryOf source = dirname source ∧ dirname source ≠ ['.'] := by
  rw [sourceDirectoryOf, rootless]
  split
  · rename_i hdir
    exact .inl ⟨rfl, hdir⟩
  · rename_i hdir
    exact .inr ⟨h.resolve_left hdir, rfl, hdir⟩

/-- The path of a file as a link: what it is read as from the folder of the note comes first in Markdown. -/
lemma resolve_path (hpath : path ∈ index.paths) (hstr : Straight path)
    (hsrc : dirname source = ['.'] ∨ Straight (dirname source))
    (hslash : slash = [] ∨ slash = ['/']) : index.resolve u (slash ++ path) source style =
      match if style = .markdown then
          index.lookup u (if sourceDirectoryOf source = [] then path else sourceDirectoryOf source ++ '/' :: path)
        else none with
      | some found => some ⟨found, .relative⟩
      | none => some ⟨path, .absolute⟩ := by
  have hne : slash ++ path ≠ [] := by
    rcases hslash with rfl | rfl
    · exact hstr.ne_nil
    · simp
  have hexpl : (['.', '/'].isPrefixOf (slash ++ path) || ['.', '.', '/'].isPrefixOf (slash ++ path)) = false := by
    rcases hslash with rfl | rfl
    · exact Bool.or_eq_false_iff.mpr hstr.not_step_isPrefixOf
    · rfl
  have habs : (slash ++ path).dropWhile (· = '/') = path := by
    rcases hslash with rfl | rfl
    · exact hstr.dropWhile_slash
    · exact hstr.dropWhile_slash
  have hdirectory : sourceDirectoryOf source = [] ∨ Straight (sourceDirectoryOf source) :=
    (sourceDirectoryOf_cases hsrc).imp And.left And.left
  rw [VaultLinkIndex.resolve, if_neg hne]
  dsimp only
  rw [relativeReading_eq hstr hdirectory hslash]
  have hread : Straight (if sourceDirectoryOf source = [] then path
      else sourceDirectoryOf source ++ '/' :: path) := by
    split
    · exact hstr
    · rename_i hdir
      exact (hdirectory.resolve_left hdir).below hstr
  cases hfound : (if style = .markdown then
      index.lookup u (if sourceDirectoryOf source = [] then path else sourceDirectoryOf source ++ '/' :: path)
    else none) with
  | _ =>
    simp [hexpl, hread.not_step_isPrefixOf.2, decide_eq_true hread.ne_step.1, decide_eq_true hread.ne_step.2,
      habs, lookup_of_mem hpath, hfound]

/-- The path of a file leads to it, except as a Markdown link from a folder in which it is shadowed. -/
lemma path_leads_iff (hnodup : (index.paths.map (foldPathCase u)).Nodup) (hpath : path ∈ index.paths)
    (hstr : Straight path) (hsrc : dirname source = ['.'] ∨ Straight (dirname source))
    (hslash : slash = [] ∨ slash = ['/']) : Leads u index (slash ++ path) source style path ↔
      style = .wiki ∨ dirname source = ['.'] ∨ ¬ Shadowed u index (dirname source) path := by
  rw [Leads, resolve_path hpath hstr hsrc hslash]
  cases style with
  | wiki => simp
  | markdown =>
    rcases sourceDirectoryOf_cases hsrc with ⟨hroot, hdir⟩ | ⟨hfold, hsame, hdir⟩
    · rw [if_pos hroot, if_pos rfl, lookup_of_mem hpath]
      exact iff_of_true rfl (.inr (.inl hdir))
    rw [if_neg hfold.ne_nil, if_pos rfl, hsame]
    cases hfound : index.lookup u (dirname source ++ '/' :: path) with
    | none =>
      have hfree := (lookup_eq_none_iff hnodup).mp hfound
      refine iff_of_true rfl (.inr (.inr ?_))
      rintro ⟨other, hother, halike⟩
      exact absurd halike (not_or.mpr (hfree other hother))
    | some found =>
      obtain ⟨hin, halike⟩ := lookup_eq_some hfound
      apply iff_of_false
      · intro heq
        cases heq
        rcases halike with halike | halike
        · have hplain := foldPathCase_ne_below (u := u) (dirname source) found [] not_mem_nil
          rw [append_nil] at hplain
          exact hplain halike
        · exact foldPathCase_ne_below (dirname source) found markdownExtension (by decide) halike
      · rintro (hstyle | hdir' | hnot)
        · cases hstyle
        · exact hdir hdir'
        · exact hnot ⟨found, hin, halike⟩

end Index

section Repair
variable {u : CaseFolding} {files directories : List (List Char)} {plan : NameRepairPlan}
  {linkpath source file target : List Char} {style : LinkStyle} {resolved : Resolution}

lemma straight_of_canonical (h : Canonical u file) : Straight file := (canonical_iff.mp h).1.segments

/-- What a plan gives its links: files in a folder or at the root, no two of them alike. -/
structure Linkable (u : CaseFolding) (index : VaultLinkIndex) : Prop where
  distinct : (index.paths.map (foldPathCase u)).Nodup
  straight : ∀ path ∈ index.paths, Straight path

lemma Linkable.dirname {index : VaultLinkIndex} (h : Linkable u index) (hfile : file ∈ index.paths) :
    dirname file = ['.'] ∨ Straight (NameRepair.dirname file) := by
  have hstr := h.straight file hfile
  have hprop : Proper file := fun segment hseg => ⟨(hstr segment hseg).1, (hstr segment hseg).2.1⟩
  rcases hprop.cases with ⟨-, hdir, -⟩ | ⟨folder, name, rfl, hname, -, -, hdir, -⟩
  · exact .inl hdir
  right
  rw [hdir]
  rw [Straight, splitOn_below folder hname, forall_mem_append] at hstr
  exact hstr.1

lemma linkable_plan (h : planNameRepair u files directories = .ok plan) : Linkable u ⟨plan.files⟩ := by
  obtain ⟨hrep, -, rfl⟩ := planNameRepair_eq_ok_iff.mp h
  constructor
  · have hperm : (planOf u files directories).files.Perm (newFiles u files directories) := sortBy_perm _ _
    rw [(hperm.map _).nodup_iff, newFiles, map_map]
    have hnodup : (sortedOf files).Nodup := (sortBy_perm _ _).nodup_iff.mpr (nodup_ofList files)
    refine hnodup.map_on ?_
    intro left hleft right hright heq
    obtain ⟨targetLeft, hvalL⟩ := exists_placed u directories (mem_sortedOf.mp hleft)
    obtain ⟨targetRight, hvalR⟩ := exists_placed u directories (mem_sortedOf.mp hright)
    rw [Function.comp_apply, Function.comp_apply, hvalL, hvalR] at heq
    exact RepairFiles.target_inj hvalL hvalR heq
  · intro path hpath
    have hnew : path ∈ newFiles u files directories := mem_sortPaths.mp hpath
    exact straight_of_canonical (isRepairedPath_iff.mp (hrep path (mem_append_left _ hnew))).1

/-- The new path of a file that a plan knows is one of the plan's files. -/
lemma map_mem (h : planNameRepair u files directories = .ok plan) (hfile : file ∈ files) (source : List Char) :
    (contextOf files plan source).map file ∈ plan.files := by
  obtain ⟨-, -, rfl⟩ := planNameRepair_eq_ok_iff.mp h
  obtain ⟨target, hvalue⟩ := exists_placed u directories hfile
  have hmap : (contextOf files (planOf u files directories) source).map file = target := by
    rw [contextOf]
    dsimp only
    rw [show (planOf u files directories).fileMap = (placedOf u files directories).fileMap from rfl, hvalue]
    rfl
  rw [hmap]
  exact mem_sortPaths.mpr (mem_newFiles.mpr ⟨file, hfile, hvalue⟩)

lemma leadingSlash_cases (linkpath : List Char) : leadingSlash linkpath = [] ∨ leadingSlash linkpath = ['/'] := by
  rw [leadingSlash]
  split
  · exact .inr rfl
  · exact .inl rfl

/-- The link itself or one of the texts that are tried for it leads to the file. -/
def Tried (u : CaseFolding) (linkpath : List Char) (style : LinkStyle) (context : LinkRewriteContext)
    (resolved : Resolution) : Prop :=
  ∃ text ∈ linkpath :: candidateTexts linkpath (context.map resolved.path) (sourceDirectoryOf context.sourceNew)
      resolved.form (keepsExtension u linkpath resolved.path),
    Leads u context.newIndex text context.sourceNew style (context.map resolved.path)

/-- A text that leads there stands where there is one, and else the path of the file. -/
lemma standingText_cases {context : LinkRewriteContext}
    (h : context.oldIndex.resolve u linkpath context.sourceOld style = some resolved) :
    Tried u linkpath style context resolved ∧ Leads u context.newIndex (standingText u linkpath style context)
        context.sourceNew style (context.map resolved.path) ∨ ¬ Tried u linkpath style context resolved ∧
        standingText u linkpath style context = leadingSlash linkpath ++ context.map resolved.path := by
  rw [standingText, rewriteTarget, h]
  dsimp only
  by_cases hlink : Leads u context.newIndex linkpath context.sourceNew style (context.map resolved.path)
  · rw [if_pos hlink]
    exact .inl ⟨⟨linkpath, mem_cons_self, hlink⟩, hlink⟩
  rw [if_neg hlink, Option.getD_some]
  cases hfind : (candidateTexts linkpath (context.map resolved.path) (sourceDirectoryOf context.sourceNew)
      resolved.form (keepsExtension u linkpath resolved.path)).find? fun text =>
        Leads u context.newIndex text context.sourceNew style (context.map resolved.path) with
  | some text =>
    have htext := find?_some hfind
    rw [decide_eq_true_eq] at htext
    exact .inl ⟨⟨text, mem_cons_of_mem _ (mem_of_find?_eq_some hfind), htext⟩, htext⟩
  | none =>
    refine .inr ⟨?_, rfl⟩
    rintro ⟨text, htext, hleads⟩
    rcases mem_cons.mp htext with rfl | htext
    · exact hlink hleads
    · exact find?_eq_none.mp hfind text htext (decide_eq_true hleads)

/-- The text that stands for a link leads to the file just when the link or one of the texts that are tried does,
or the link is no Markdown link from a folder in which the path of the file is shadowed. -/
theorem standingText_leads_iff (h : planNameRepair u files directories = .ok plan) (hsource : source ∈ files)
    {context : LinkRewriteContext} (hcontext : context = contextOf files plan source)
    (hresolved : context.oldIndex.resolve u linkpath source style = some resolved) :
    Leads u context.newIndex (standingText u linkpath style context) context.sourceNew style
        (context.map resolved.path) ↔
      Tried u linkpath style context resolved ∨ style = .wiki ∨ dirname context.sourceNew = ['.'] ∨
        ¬ Shadowed u context.newIndex (dirname context.sourceNew) (context.map resolved.path) := by
  subst hcontext
  have hlink : Linkable u (contextOf files plan source).newIndex := linkable_plan h
  have hfile := map_mem h (resolve_mem hresolved) source
  rcases standingText_cases hresolved with ⟨htried, hleads⟩ | ⟨hnot, htext⟩
  · exact iff_of_true hleads (.inl htried)
  rw [htext, or_iff_right hnot]
  apply path_leads_iff hlink.distinct hfile (hlink.straight _ hfile) _ (leadingSlash_cases linkpath)
  exact hlink.dirname (map_mem h hsource source)

end Repair

/-- The file `x/a?.md` becomes `x/a.md`, which the link `a` of the note `x/n.md` meets before `a.md`. -/
def sideNotes : List (List Char) := ["a.md".toList, "x/n.md".toList, "x/a?.md".toList]

def sideContext : LinkRewriteContext :=
  contextOf sideNotes (planOf asciiCaseFolding sideNotes []) "x/n.md".toList

lemma plan_sideNotes : planNameRepair asciiCaseFolding sideNotes [] = .ok (planOf asciiCaseFolding sideNotes []) := by
  apply planNameRepair_eq_ok_iff.mpr
  exact ⟨all_eq_true.mp (by decide +kernel), isEmpty_iff.mp (by decide +kernel), rfl⟩

lemma resolve_sideNotes : sideContext.oldIndex.resolve asciiCaseFolding "a".toList "x/n.md".toList .markdown
    = some ⟨"a.md".toList, .absolute⟩ := by
  decide +kernel

/-- The link led to `a.md`; what stands for it leads to `x/a.md`. -/
theorem sideNotes_misled : planNameRepair asciiCaseFolding sideNotes [] = .ok (planOf asciiCaseFolding sideNotes []) ∧
    sideContext.oldIndex.resolve asciiCaseFolding "a".toList "x/n.md".toList .markdown
      = some ⟨"a.md".toList, .absolute⟩ ∧ sideContext.map "a.md".toList = "a.md".toList ∧
    ¬ Leads asciiCaseFolding sideContext.newIndex (standingText asciiCaseFolding "a".toList .markdown sideContext)
      sideContext.sourceNew .markdown (sideContext.map "a.md".toList) := by
  refine ⟨plan_sideNotes, resolve_sideNotes, ?_, ?_⟩
  · decide +kernel
  · decide +kernel

theorem sideNotes_leads_iff : Leads asciiCaseFolding sideContext.newIndex
      (standingText asciiCaseFolding "a".toList .markdown sideContext) sideContext.sourceNew .markdown
      (sideContext.map "a.md".toList) ↔
    Tried asciiCaseFolding "a".toList .markdown sideContext ⟨"a.md".toList, .absolute⟩ ∨
      LinkStyle.markdown = .wiki ∨ dirname sideContext.sourceNew = ['.'] ∨
      ¬ Shadowed asciiCaseFolding sideContext.newIndex (dirname sideContext.sourceNew)
        (sideContext.map "a.md".toList) := by
  have hsrc : "x/n.md".toList ∈ sideNotes := by decide
  exact standingText_leads_iff plan_sideNotes hsrc rfl resolve_sideNotes

end LinkRewrites
