import Obts.RepairedNames

/-!
# Folders of a repair

New folders have folded forms of their own, and with each its own folders above it. Where the paths have no
empty segments, a folder takes the name of the first folder, by depth and then by code units, whose sanitized
path has the same folded form.
-/
namespace RepairFolders

open InsertionOrder SlashPath PortableNames NameRepair RepairedNames List

section Claimed
variable {u : CaseFolding} {state : Directories} {folder path : List Char}
  {files directories : List (List Char)}

def newFolders (state : Directories) : List (List Char) := state.directoryByKey.map Prod.snd

/-- What the loop over the folders keeps. -/
structure Claimed (u : CaseFolding) (state : Directories) : Prop where
  keyed : ∀ e ∈ state.directoryByKey, e.1 = foldPathCase u e.2
  distinct : (state.directoryByKey.map Prod.fst).Nodup
  mapped : ∀ path folder, valueAt state.directoryMap path = some folder → folder ∈ newFolders state
  closed : ∀ folder ∈ newFolders state, ∀ above ∈ pathPrefixes folder, above ∈ newFolders state
  proper : ['/'] ∉ newFolders state
  root : ∀ folder, valueAt state.directoryMap ['/'] = some folder → folder = []

/-- A candidate is a name, or a name below a new folder. -/
lemma candidateOf_cases (h : Claimed u state) (path : List Char) (isFile : Bool) :
    ∃ isRoot name, name = sanitizeSegment (basename path) isFile isRoot ∧ '/' ∉ name ∧
      ((newParentOf state.directoryMap path).getD [] = [] ∧ candidateOf state.directoryMap path isFile = name ∨
        ∃ folder ∈ newFolders state, folder ≠ [] ∧ newParentOf state.directoryMap path = some folder ∧
          candidateOf state.directoryMap path isFile = folder ++ '/' :: name) := by
  refine ⟨newParentOf state.directoryMap path = some [], _, rfl,
    slash_notMem_sanitizeSegment (slash_notMem_basename path) _ _, ?_⟩
  rw [candidateOf]
  cases hpar : newParentOf state.directoryMap path with
  | none => exact .inl ⟨rfl, rfl⟩
  | some folder =>
    cases folder with
    | nil => exact .inl ⟨rfl, rfl⟩
    | cons c folder =>
      refine .inr ⟨c :: folder, ?_, cons_ne_nil c folder, rfl, rfl⟩
      rw [newParentOf] at hpar
      split at hpar
      · cases hpar
      · exact h.mapped _ _ hpar

/-- The step of the loop keeps all of it. -/
lemma Claimed.claimDirectory (h : Claimed u state) (folder : List Char) :
    Claimed u (claimDirectory u state folder) := by
  obtain ⟨isRoot, name, hname, hslash, hcases⟩ := candidateOf_cases h folder false
  have hroot : folder = ['/'] → candidateOf state.directoryMap folder false = [] := by
    rintro rfl
    have hpar : (newParentOf state.directoryMap ['/']).getD [] = [] := by
      rw [newParentOf, if_neg (by decide)]
      cases hvalue : valueAt state.directoryMap (dirname ['/']) with
      | none => rfl
      | some folder => exact h.root folder hvalue
    rcases hcases with ⟨-, hcand⟩ | ⟨above, -, hne, habove, -⟩
    · rw [hcand, hname]
      exact sanitizeSegment_of_plain rfl
    · rw [habove] at hpar
      exact absurd hpar hne
  rw [NameRepair.claimDirectory]
  split
  · rename_i existing hex
    have hmem : (foldPathCase u (candidateOf state.directoryMap folder false), existing) ∈ state.directoryByKey :=
      mem_of_valueAt hex
    refine { h with mapped := ?_, root := ?_ }
    · intro path target hvalue
      rcases valueAt_set_cases hvalue with ⟨-, rfl⟩ | ⟨-, hvalue⟩
      · exact mem_map_of_mem hmem
      · exact h.mapped path target hvalue
    intro target hvalue
    rcases valueAt_set_cases hvalue with ⟨hdir, rfl⟩ | ⟨-, hvalue⟩
    · have hkey := h.keyed _ hmem
      rw [hroot hdir.symm, foldPathCase_nil] at hkey
      exact u.eq_nil target hkey.symm
    · exact h.root target hvalue
  · rename_i hfree
    have hnew : foldPathCase u (candidateOf state.directoryMap folder false) ∉ state.directoryByKey.map Prod.fst :=
      valueAt_eq_none.mp hfree
    have hset : set state.directoryByKey (foldPathCase u (candidateOf state.directoryMap folder false))
        (candidateOf state.directoryMap folder false) = state.directoryByKey ++
          [(foldPathCase u (candidateOf state.directoryMap folder false),
            candidateOf state.directoryMap folder false)] :=
      if_neg hnew
    have hdirs : ∀ target, target ∈ newFolders ⟨set state.directoryMap folder
        (candidateOf state.directoryMap folder false), set state.directoryByKey
        (foldPathCase u (candidateOf state.directoryMap folder false))
          (candidateOf state.directoryMap folder false)⟩ ↔
        target ∈ newFolders state ∨ target = candidateOf state.directoryMap folder false := by
      intro target
      rw [newFolders, hset, map_append, mem_append, map_singleton, mem_singleton]
      rfl
    constructor
    · rw [hset]
      intro e he
      rcases mem_append.mp he with he | he
      · exact h.keyed e he
      · rw [mem_singleton.mp he]
    · exact nodup_keys_set h.distinct _ _
    · intro path target hvalue
      rw [hdirs]
      rcases valueAt_set_cases hvalue with ⟨-, rfl⟩ | ⟨-, hvalue⟩
      · exact .inr rfl
      · exact .inl (h.mapped path target hvalue)
    · intro target htgt above habove
      rw [hdirs] at htgt ⊢
      rcases htgt with htgt | rfl
      · exact .inl (h.closed target htgt above habove)
      rcases hcases with ⟨-, hcand⟩ | ⟨parent, hpar, -, -, hcand⟩
      · rw [hcand, pathPrefixes_of_segment hslash, mem_singleton] at habove
        exact .inr (habove.trans hcand.symm)
      rw [hcand, pathPrefixes_below parent hslash, mem_append, mem_singleton] at habove
      rcases habove with habove | habove
      · exact .inl (h.closed parent hpar above habove)
      · exact .inr (habove.trans hcand.symm)
    · rw [hdirs, not_or]
      refine ⟨h.proper, ?_⟩
      intro hslaO
      rcases hcases with ⟨-, hcand⟩ | ⟨parent, -, hne, -, hcand⟩
      · rw [← hcand, ← hslaO] at hslash
        exact hslash mem_cons_self
      rw [hcand] at hslaO
      have hlen := congrArg length hslaO
      have hpos := length_pos_of_ne_nil hne
      simp only [length_append, length_cons, length_nil] at hlen
      omega
    · intro target hvalue
      rcases valueAt_set_cases hvalue with ⟨hdir, rfl⟩ | ⟨-, hvalue⟩
      · exact hroot hdir.symm
      · exact h.root target hvalue

lemma claimed_run (ordered : List (List Char)) : ∀ state, Claimed u state →
    Claimed u (ordered.foldl (claimDirectory u) state) := by
  induction ordered with
  | nil => exact fun _ h => h
  | cons folder ordered ih => exact fun state h => ih _ (h.claimDirectory folder)

lemma claimed_claimDirectories (u : CaseFolding) (files directories : List (List Char)) :
    Claimed u (claimDirectories u files directories) := by
  apply claimed_run
  exact ⟨fun _ h => (nomatch h), nodup_nil, fun _ _ h => (nomatch h), fun _ h => (nomatch h),
    not_mem_nil, fun _ h => (nomatch h)⟩

end Claimed

variable (path : List Char)

/-- No segment is empty or a dot. -/
def Proper : Prop := ∀ segment ∈ path.splitOn '/', segment ≠ [] ∧ segment ≠ ['.']

/-- The path with every segment sanitized. -/
def sanitizedPath : List Char :=
  match path.splitOn '/' with
  | [] => []
  | top :: names =>
    ['/'].intercalate (sanitizeSegment top false true :: names.map fun name => sanitizeSegment name false false)

/-- The sanitized name of a folder. -/
def folderName : List Char :=
  sanitizeSegment (basename path) false (dirname path = ['.'])

section Proper
variable {path folder name : List Char}

lemma proper_below_iff (hname : '/' ∉ name) :
    Proper (folder ++ '/' :: name) ↔ Proper folder ∧ name ≠ [] ∧ name ≠ ['.'] := by
  rw [Proper, splitOn_below folder hname, forall_mem_concat]
  rfl

section
variable (h : Proper path)
include h

lemma Proper.ne_nil : path ≠ [] := by
  rintro rfl
  exact (h [] (mem_singleton_self [])).1 rfl

lemma Proper.ne_slash : path ≠ ['/'] := by
  rintro rfl
  exact (h [] (by decide)).1 rfl

lemma Proper.ne_dot : path ≠ ['.'] := by
  rintro rfl
  exact (h ['.'] (by decide)).2 rfl

/-- A proper path is a name, or has a proper folder above its name. -/
lemma Proper.cases : ('/' ∉ path ∧ dirname path = ['.'] ∧ basename path = path) ∨
    ∃ folder name, path = folder ++ '/' :: name ∧ '/' ∉ name ∧ name ≠ [] ∧ Proper folder ∧
      dirname path = folder ∧ basename path = name ∧ folder ≠ ['.'] := by
  rcases segment_or_below path with hslash | ⟨folder, name, rfl, hname⟩
  · exact .inl ⟨hslash, dirname_of_segment hslash, basename_of_segment hslash⟩
  obtain ⟨hdir, hne, -⟩ := (proper_below_iff hname).mp h
  exact .inr ⟨folder, name, rfl, hname, hne, hdir, dirname_below hname hne hdir.ne_nil hdir.ne_slash,
    basename_below folder hname hne, hdir.ne_dot⟩

lemma Proper.above : ∀ above ∈ pathPrefixes path, Proper above :=
  forall_pathPrefixes (fun _ _ hname hprop => ((proper_below_iff hname).mp hprop).1) h

end

lemma sanitizedPath_of_segment (hslash : '/' ∉ path) : sanitizedPath path = sanitizeSegment path false true := by
  rw [sanitizedPath, splitOn_eq_singleton hslash]
  exact intercalate_singleton

lemma sanitizedPath_below (folder : List Char) (hname : '/' ∉ name) :
    sanitizedPath (folder ++ '/' :: name) = sanitizedPath folder ++ '/' :: sanitizeSegment name false false := by
  rw [sanitizedPath, sanitizedPath, splitOn_below folder hname]
  cases hsplit : folder.splitOn '/' with
  | nil => exact absurd hsplit (splitOn_ne_nil '/' folder)
  | cons top names =>
    dsimp only [cons_append]
    rw [map_append, ← cons_append, intercalate_append_of_ne_nil '/' (cons_ne_nil _ _) (by simp), map_singleton,
      intercalate_singleton]

lemma sanitizedPath_ne_nil (h : Proper path) : sanitizedPath path ≠ [] := by
  rcases h.cases with ⟨hslash, -, -⟩ | ⟨folder, name, rfl, hname, -⟩
  · rw [sanitizedPath_of_segment hslash]
    exact sanitizeSegment_ne_nil h.ne_nil _ _
  · rw [sanitizedPath_below folder hname]
    simp

/-- A path without reserved characters is its own sanitized path. -/
lemma sanitizedPath_of_plain (h : ∀ segment ∈ path.splitOn '/', segmentHasReservedCharacters segment = false) :
    sanitizedPath path = path := by
  induction path using path_induction with
  | segment name hname =>
    rw [splitOn_eq_singleton hname, forall_mem_singleton] at h
    rw [sanitizedPath_of_segment hname, sanitizeSegment_of_plain h]
  | below folder name hname ih =>
    rw [splitOn_below folder hname, forall_mem_concat] at h
    rw [sanitizedPath_below folder hname, sanitizeSegment_of_plain h.2, ih h.1]

end Proper

section First
variable {u : CaseFolding} {path folder first other : List Char} {done ordered : List (List Char)}
  {state : Directories}

/-- The first folder whose sanitized path has the same folded form. -/
def firstAlike (u : CaseFolding) (ordered : List (List Char)) (path : List Char) : Option (List Char) :=
  ordered.find? fun other => foldPathCase u (sanitizedPath other) = foldPathCase u (sanitizedPath path)

/-- What the loop over proper folders has made of those before the current one. -/
structure Named (u : CaseFolding) (done : List (List Char)) (state : Directories) : Prop where
  folded : ∀ path ∈ done, ∃ folder, valueAt state.directoryMap path = some folder ∧
    foldPathCase u folder = foldPathCase u (sanitizedPath path)
  first : ∀ path ∈ done, ∀ first, firstAlike u done path = some first →
    valueAt state.directoryMap path = valueAt state.directoryMap first ∧
      valueAt state.directoryMap first = some (candidateOf state.directoryMap first false)
  byKey : ∀ key folder, valueAt state.directoryByKey key = some folder →
    ∃ path ∈ done, foldPathCase u (sanitizedPath path) = key ∧ valueAt state.directoryMap path = some folder
  known : ∀ path ∈ done, (valueAt state.directoryByKey (foldPathCase u (sanitizedPath path))).isSome

/-- Folders after those above them. -/
def ParentsFirst (ordered : List (List Char)) : Prop :=
  ∀ before path after, ordered = before ++ path :: after →
    path ∉ before ∧ (dirname path = ['.'] ∨ dirname path ∈ before)

lemma newParentOf_congr {map other : List (List Char × List Char)}
    (h : dirname path = ['.'] ∨ valueAt map (dirname path) = valueAt other (dirname path)) :
    newParentOf map path = newParentOf other path := by
  rw [newParentOf, newParentOf]
  split
  · rfl
  · rename_i hdir
    exact h.resolve_left hdir

lemma candidateOf_congr {map other : List (List Char × List Char)} {isFile : Bool}
    (h : dirname path = ['.'] ∨ valueAt map (dirname path) = valueAt other (dirname path)) :
    candidateOf map path isFile = candidateOf other path isFile := by
  rw [candidateOf, candidateOf, newParentOf_congr h]

/-- The new path of a folder below a folder that has its own. -/
lemma candidateOf_proper (h : Named u done state) (hprop : Proper path)
    (hpar : dirname path = ['.'] ∨ dirname path ∈ done) (isFile : Bool) :
    dirname path = ['.'] ∧ candidateOf state.directoryMap path isFile = sanitizeSegment (basename path) isFile true ∨
      ∃ folder, valueAt state.directoryMap (dirname path) = some folder ∧ folder ≠ [] ∧ dirname path ≠ ['.'] ∧
        foldPathCase u folder = foldPathCase u (sanitizedPath (dirname path)) ∧
        candidateOf state.directoryMap path isFile =
          folder ++ '/' :: sanitizeSegment (basename path) isFile false := by
  by_cases hdir : dirname path = ['.']
  · left
    refine ⟨hdir, ?_⟩
    rw [candidateOf, newParentOf, if_pos hdir]
    simp [below]
  right
  obtain ⟨folder, hvalue, hfold⟩ := h.folded _ (hpar.resolve_left hdir)
  have hproD : Proper (dirname path) := by
    rcases hprop.cases with ⟨-, htop, -⟩ | ⟨above, name, rfl, -, -, habove, hdn, -⟩
    · exact absurd htop hdir
    · rwa [hdn]
  have hne : folder ≠ [] := by
    rintro rfl
    rw [foldPathCase_nil] at hfold
    exact sanitizedPath_ne_nil hproD (u.eq_nil _ hfold.symm)
  refine ⟨folder, hvalue, hne, hdir, hfold, ?_⟩
  rw [candidateOf, newParentOf, if_neg hdir, hvalue]
  cases folder with
  | nil => exact absurd rfl hne
  | cons c folder => simp [below]

/-- The candidate for a folder has the folded form of its sanitized path. -/
lemma foldPathCase_candidateOf (h : Named u done state) (hprop : Proper path)
    (hpar : dirname path = ['.'] ∨ dirname path ∈ done) :
    foldPathCase u (candidateOf state.directoryMap path false) = foldPathCase u (sanitizedPath path) := by
  rcases candidateOf_proper h hprop hpar false with ⟨hdir, hcand⟩ | ⟨folder, -, -, hdir, hfold, hcand⟩
  · rcases hprop.cases with ⟨hslash, -, hbase⟩ | ⟨above, name, rfl, -, -, -, hdn, -, hdot⟩
    · rw [hcand, hbase, sanitizedPath_of_segment hslash]
    · exact absurd (hdn.symm.trans hdir) hdot
  rcases hprop.cases with ⟨-, htop, -⟩ | ⟨above, name, rfl, hname, -, -, hdn, hbase, -⟩
  · exact absurd htop hdir
  rw [hdn] at hfold
  rw [hcand, hbase, sanitizedPath_below above hname, foldPathCase_append (by decide), hfold,
    ← foldPathCase_append (by decide)]

lemma firstAlike_append_of_some (h : firstAlike u done path = some first) (folder : List Char) :
    firstAlike u (done ++ [folder]) path = some first := by
  rw [firstAlike] at h ⊢
  rw [find?_append, h]
  rfl

lemma exists_firstAlike (h : path ∈ done) : ∃ first, firstAlike u done path = some first := by
  cases hfirst : firstAlike u done path with
  | some first => exact ⟨first, rfl⟩
  | none => simpa using find?_eq_none.mp hfirst path h

lemma firstAlike_mem (h : firstAlike u done path = some first) :
    first ∈ done ∧ foldPathCase u (sanitizedPath first) = foldPathCase u (sanitizedPath path) := by
  have htest := find?_some h
  exact ⟨mem_of_find?_eq_some h, of_decide_eq_true htest⟩

lemma firstAlike_congr (h : foldPathCase u (sanitizedPath path) = foldPathCase u (sanitizedPath other)) :
    firstAlike u done path = firstAlike u done other := by
  rw [firstAlike, firstAlike, h]

/-- The step of the loop for a folder whose parent has been named. -/
lemma Named.claimDirectory (h : Named u done state) (hnew : path ∉ done) (hprop : Proper path)
    (hpar : dirname path = ['.'] ∨ dirname path ∈ done)
    (hpars : ∀ other ∈ done, dirname other = ['.'] ∨ dirname other ∈ done) :
    Named u (done ++ [path]) (claimDirectory u state path) := by
  have hfold := foldPathCase_candidateOf h hprop hpar
  -- whichever way the folder is named, the others keep theirs
  have hkept : ∀ target, ∀ other ∈ done,
      valueAt (set state.directoryMap path target) other = valueAt state.directoryMap other := by
    intro target other hother
    apply valueAt_set_of_ne
    rintro rfl
    exact hnew hother
  have hcand : ∀ target, ∀ other, dirname other = ['.'] ∨ dirname other ∈ done →
      candidateOf (set state.directoryMap path target) other false = candidateOf state.directoryMap other false :=
    fun target other hdir => candidateOf_congr (hdir.imp_right fun hin => hkept target _ hin)
  have hfirst : ∀ target, ∀ other ∈ done, ∀ first, firstAlike u (done ++ [path]) other = some first →
      valueAt (set state.directoryMap path target) other = valueAt (set state.directoryMap path target) first ∧
        valueAt (set state.directoryMap path target) first
          = some (candidateOf (set state.directoryMap path target) first false) := by
    intro target other hother first hfirst
    obtain ⟨old, hold⟩ := exists_firstAlike (u := u) hother
    obtain rfl : old = first := Option.some.inj ((firstAlike_append_of_some hold path).symm.trans hfirst)
    have hin := (firstAlike_mem hold).1
    rw [hkept target other hother, hkept target old hin, hcand target old (hpars old hin)]
    exact h.first other hother old hold
  rw [NameRepair.claimDirectory, hfold]
  cases hex : valueAt state.directoryByKey (foldPathCase u (sanitizedPath path)) with
  | some existing =>
    obtain ⟨other, hother, hkey, hvalue⟩ := h.byKey _ existing hex
    constructor
    · rw [forall_mem_concat]
      refine ⟨fun old hold => ?_, existing, valueAt_set_self _ _ _, ?_⟩
      · rw [hkept existing old hold]
        exact h.folded old hold
      obtain ⟨folder, hfol, hfolF⟩ := h.folded other hother
      obtain rfl : existing = folder := Option.some.inj (hvalue.symm.trans hfol)
      exact hfolF.trans hkey
    · rw [forall_mem_concat]
      refine ⟨hfirst existing, fun first hfirP => ?_⟩
      rw [firstAlike_congr hkey.symm] at hfirP
      obtain ⟨hsame, hnamed⟩ := hfirst existing other hother first hfirP
      rw [valueAt_set_self, ← hnamed, ← hsame, hkept existing other hother, hvalue]
      exact ⟨rfl, rfl⟩
    · intro key folder hfol
      obtain ⟨old, hold, hkeyO, hvalO⟩ := h.byKey key folder hfol
      exact ⟨old, mem_append_left _ hold, hkeyO, (hkept existing old hold).trans hvalO⟩
    · rw [forall_mem_concat]
      exact ⟨h.known, Option.isSome_iff_exists.mpr ⟨existing, hex⟩⟩
  | none =>
    have hfirN : firstAlike u (done ++ [path]) path = some path := by
      rw [firstAlike, find?_append, find?_singleton, if_pos (decide_eq_true rfl)]
      have hnone : done.find? (fun other =>
          decide (foldPathCase u (sanitizedPath other) = foldPathCase u (sanitizedPath path))) = none := by
        rw [find?_eq_none]
        intro other hother hkey
        have hknown := h.known other hother
        rw [of_decide_eq_true hkey, hex] at hknown
        cases hknown
      rw [hnone]
      rfl
    constructor
    · rw [forall_mem_concat]
      refine ⟨fun old hold => ?_, _, valueAt_set_self _ _ _, hfold⟩
      rw [hkept _ old hold]
      exact h.folded old hold
    · rw [forall_mem_concat]
      refine ⟨hfirst _, fun first hfirP => ?_⟩
      obtain rfl : path = first := Option.some.inj (hfirN.symm.trans hfirP)
      rw [valueAt_set_self, hcand _ path hpar]
      exact ⟨rfl, rfl⟩
    · intro key folder hfol
      rcases valueAt_set_cases hfol with ⟨rfl, rfl⟩ | ⟨-, hfol⟩
      · exact ⟨path, mem_append_right _ (mem_singleton_self path), rfl, valueAt_set_self _ _ _⟩
      · obtain ⟨old, hold, hkeyO, hvalO⟩ := h.byKey key folder hfol
        exact ⟨old, mem_append_left _ hold, hkeyO, (hkept _ old hold).trans hvalO⟩
    · rw [forall_mem_concat]
      refine ⟨fun old hold => ?_, ?_⟩
      · by_cases hkey : foldPathCase u (sanitizedPath old) = foldPathCase u (sanitizedPath path)
        · rw [hkey, valueAt_set_self]
          rfl
        · rw [valueAt_set_of_ne _ _ hkey]
          exact h.known old hold
      · rw [valueAt_set_self]
        rfl

lemma named_run (hprop : ∀ path ∈ ordered, Proper path) (hpars : ParentsFirst ordered) :
    Named u ordered (ordered.foldl (claimDirectory u) ⟨[], []⟩) := by
  induction ordered using reverseRecOn with
  | nil => exact ⟨fun _ h => (nomatch h), fun _ h => (nomatch h), fun _ _ h => (nomatch h), fun _ h => (nomatch h)⟩
  | append_singleton done path ih =>
    rw [forall_mem_concat] at hprop
    have hdone : ParentsFirst done := by
      intro before other after hsplit
      apply hpars before other (after ++ [path])
      rw [hsplit]
      simp
    obtain ⟨hnew, hpar⟩ := hpars done path [] rfl
    rw [foldl_append, foldl_cons, foldl_nil]
    apply (ih hprop.1 hdone).claimDirectory hnew hprop.2 hpar
    intro other hother
    obtain ⟨before, after, hsplit⟩ := append_of_mem hother
    refine (hdone before other after hsplit).2.imp_right fun hin => ?_
    rw [hsplit]
    exact mem_append_left _ hin

/-- Folders of one folded form have one name and parents of one folded form. -/
lemma parts_of_alike (hprop : Proper path) (hother : Proper other)
    (h : foldPathCase u (sanitizedPath other) = foldPathCase u (sanitizedPath path)) :
    dirname path = ['.'] ∧ dirname other = ['.'] ∨ dirname path ≠ ['.'] ∧ dirname other ≠ ['.'] ∧
      foldPathCase u (sanitizedPath (dirname other)) = foldPathCase u (sanitizedPath (dirname path)) := by
  have hslash : ∀ {text : List Char} (isRoot : Bool), '/' ∉ text →
      '/' ∉ foldPathCase u (sanitizeSegment text false isRoot) :=
    fun isRoot htext => slash_notMem_foldPathCase (slash_notMem_sanitizeSegment htext false isRoot)
  rcases hprop.cases with ⟨hpath, hdir, -⟩ | ⟨folder, name, rfl, hname, -, -, hdir, -, hdot⟩ <;>
    rcases hother.cases with ⟨hpath', hdir', -⟩ | ⟨folder', name', rfl, hname', -, -, hdir', -, hdot'⟩
  · exact .inl ⟨hdir, hdir'⟩
  · rw [sanitizedPath_below folder' hname', sanitizedPath_of_segment hpath, foldPathCase_append (by decide)] at h
    have hmem : '/' ∈ foldPathCase u (sanitizeSegment path false true) :=
      h ▸ mem_append_right _ mem_cons_self
    exact absurd hmem (hslash true hpath)
  · rw [sanitizedPath_below folder hname, sanitizedPath_of_segment hpath', foldPathCase_append (by decide)] at h
    have hmem : '/' ∈ foldPathCase u (sanitizeSegment other false true) :=
      h ▸ mem_append_right _ mem_cons_self
    exact absurd hmem (hslash true hpath')
  · rw [sanitizedPath_below folder hname, sanitizedPath_below folder' hname', foldPathCase_append (by decide),
      foldPathCase_append (by decide)] at h
    have hdirs := (below_inj (hslash false hname') (hslash false hname) h).1
    rw [hdir, hdir']
    exact .inr ⟨hdot, hdot', hdirs⟩

/-- A folder and those above it have the names of the first folders of their folded forms. -/
def KeepsNames (u : CaseFolding) (ordered : List (List Char)) (path : List Char) : Prop :=
  ∀ above ∈ pathPrefixes path, ∃ first, firstAlike u ordered above = some first ∧ folderName first = basename above

/-- The new path of a folder has the name of the first folder of its folded form, below the new path of the
folder above it. -/
lemma Named.value_cases (h : Named u done state) (hprop : ∀ path ∈ done, Proper path)
    (hpars : ∀ path ∈ done, dirname path = ['.'] ∨ dirname path ∈ done) (hpath : path ∈ done)
    (hfirst : firstAlike u done path = some first) :
    dirname path = ['.'] ∧ valueAt state.directoryMap path = some (folderName first) ∧
        folderName first = sanitizeSegment (basename first) false true ∨
      dirname path ≠ ['.'] ∧ folderName first = sanitizeSegment (basename first) false false ∧
        ∃ folder, valueAt state.directoryMap (dirname path) = some folder ∧ folder ≠ [] ∧
          valueAt state.directoryMap path = some (folder ++ '/' :: folderName first) := by
  obtain ⟨hin, halike⟩ := firstAlike_mem hfirst
  obtain ⟨hsame, hvalue⟩ := h.first path hpath first hfirst
  rw [hsame, hvalue]
  rcases candidateOf_proper h (hprop first hin) (hpars first hin) false with
    ⟨hdirF, hcand⟩ | ⟨folder, hfold, hne, hdirF, -, hcand⟩
  · left
    have hname : folderName first = sanitizeSegment (basename first) false true := by
      simp [folderName, hdirF]
    rcases parts_of_alike (hprop path hpath) (hprop first hin) halike with ⟨hdir, -⟩ | ⟨-, hdirF', -⟩
    · exact ⟨hdir, by rw [hcand, hname], hname⟩
    · exact absurd hdirF hdirF'
  · right
    have hname : folderName first = sanitizeSegment (basename first) false false := by
      simp [folderName, hdirF]
    rcases parts_of_alike (hprop path hpath) (hprop first hin) halike with ⟨-, hdirF'⟩ | ⟨hdir, -, hdirs⟩
    · exact absurd hdirF' hdirF
    -- folders of one folded form have one new path
    have habove : dirname path ∈ done := (hpars path hpath).resolve_left hdir
    obtain ⟨top, htop⟩ := exists_firstAlike (u := u) habove
    have hone : valueAt state.directoryMap (dirname first) = valueAt state.directoryMap (dirname path) := by
      rw [(h.first _ habove top htop).1]
      exact (h.first _ ((hpars first hin).resolve_left hdirF) top ((firstAlike_congr hdirs).trans htop)).1
    exact ⟨hdir, hname, folder, hone ▸ hfold, hne, by rw [hcand, hname]⟩

lemma slash_notMem_folderName (path : List Char) : '/' ∉ folderName path :=
  slash_notMem_sanitizeSegment (slash_notMem_basename path) _ _

/-- A folder keeps its path just when it and those above it have the names of the first of their kind. -/
lemma Named.kept_iff (h : Named u done state) (hprop : ∀ path ∈ done, Proper path)
    (hpars : ∀ path ∈ done, dirname path = ['.'] ∨ dirname path ∈ done) (hpath : path ∈ done) :
    valueAt state.directoryMap path = some path ↔ KeepsNames u done path := by
  induction path using path_induction with
  | segment name hname =>
    obtain ⟨first, hfirst⟩ := exists_firstAlike (u := u) hpath
    rw [KeepsNames, pathPrefixes_of_segment hname, forall_mem_singleton, hfirst, basename_of_segment hname]
    rcases h.value_cases hprop hpars hpath hfirst with ⟨-, hvalue, -⟩ | ⟨hdir, -⟩
    · simp [hvalue]
    · exact absurd (dirname_of_segment hname) hdir
  | below folder name hname ih =>
    obtain ⟨first, hfirst⟩ := exists_firstAlike (u := u) hpath
    rcases (hprop _ hpath).cases with ⟨hslash, -⟩ | ⟨above, last, heq, hlast, -, -, hdir, hbase, hdot⟩
    · exact absurd (mem_append_right _ mem_cons_self) hslash
    obtain ⟨rfl, rfl⟩ := below_inj hname hlast heq
    rcases h.value_cases hprop hpars hpath hfirst with ⟨hdir', -⟩ | ⟨-, -, new, hnew, -, hvalue⟩
    · exact absurd (hdir.symm.trans hdir') hdot
    rw [hdir] at hnew
    have hfold : folder ∈ done := by
      have hpar := hpars _ hpath
      rw [hdir] at hpar
      exact hpar.resolve_left hdot
    have hiff := ih hfold
    rw [hnew, Option.some_inj, KeepsNames] at hiff
    rw [hvalue, Option.some_inj, KeepsNames, pathPrefixes_below folder hname, forall_mem_concat, ← hiff,
      hfirst, hbase]
    constructor
    · intro hkept
      obtain ⟨hfolS, hnamS⟩ := below_inj (slash_notMem_folderName first) hname hkept
      exact ⟨hfolS, first, rfl, hnamS⟩
    rintro ⟨rfl, other, hother, rfl⟩
    cases hother
    rfl

end First

section Ordered
variable {u : CaseFolding} {path : List Char} {files directories : List (List Char)}

instance : Std.TransCmp compareFolders :=
  inferInstanceAs (Std.TransCmp
    (compareLex (compareOn fun path : List Char => (path.splitOn '/').length) compareText))

/-- The folders in the order of the loop. -/
def orderedFolders (files directories : List (List Char)) : List (List Char) :=
  sortBy compareFolders (folders files directories)

lemma mem_folders : path ∈ folders files directories ↔ ∃ folder, folder ≠ ['.'] ∧
    ((∃ file ∈ files, dirname file = folder) ∨ folder ∈ directories) ∧ path ∈ pathPrefixes folder := by
  simp only [folders, mem_ofList, mem_flatMap, mem_filter, mem_append, mem_map, ne_eq,
    decide_not, Bool.not_eq_true', decide_eq_false_iff_not]
  constructor
  · rintro ⟨folder, ⟨hlst, hdot⟩, hpath⟩
    exact ⟨folder, hdot, hlst, hpath⟩
  · rintro ⟨folder, hdot, hlst, hpath⟩
    exact ⟨folder, ⟨hlst, hdot⟩, hpath⟩

/-- All listed paths have proper segments. -/
def ProperPaths (files directories : List (List Char)) : Prop :=
  ∀ path, path ∈ files ∨ path ∈ directories → Proper path

section
variable (h : ProperPaths files directories)
include h

lemma proper_of_mem_folders (hpath : path ∈ folders files directories) : Proper path := by
  obtain ⟨folder, hdot, hlst, habove⟩ := mem_folders.mp hpath
  have hfold : Proper folder := by
    rcases hlst with ⟨file, hfile, hdir⟩ | hdirectory
    · rcases (h file (.inl hfile)).cases with ⟨-, htop, -⟩ | ⟨above, name, -, -, -, habove, hdn, -⟩
      · exact absurd (hdir.symm.trans htop) hdot
      · rwa [← hdir, hdn]
    · exact h folder (.inr hdirectory)
  exact hfold.above path habove

lemma dirname_mem_folders (hpath : path ∈ folders files directories) :
    dirname path = ['.'] ∨ dirname path ∈ folders files directories := by
  rcases (proper_of_mem_folders h hpath).cases with ⟨-, htop, -⟩ | ⟨above, name, rfl, hname, -, -, hdn, -⟩
  · exact .inl htop
  right
  obtain ⟨folder, hdot, hlst, habove⟩ := mem_folders.mp hpath
  refine mem_folders.mpr ⟨folder, hdot, hlst, pathPrefixes_trans habove ?_⟩
  rw [hdn, pathPrefixes_below above hname]
  exact mem_append_left _ (self_mem_pathPrefixes above)

lemma parentsFirst_orderedFolders : ParentsFirst (orderedFolders files directories) := by
  intro before path after hsplit
  have hnodup : (orderedFolders files directories).Nodup :=
    (sortBy_perm _ _).nodup_iff.mpr (nodup_ofList _)
  have hsort := pairwise_sortBy compareFolders (folders files directories)
  rw [← orderedFolders, hsplit] at hsort
  rw [hsplit] at hnodup
  have hmem : path ∈ folders files directories := by
    have hin : path ∈ orderedFolders files directories := hsplit ▸ mem_append_right _ mem_cons_self
    exact mem_sortBy.mp hin
  constructor
  · exact fun hin => (nodup_append.mp hnodup).2.2 path hin path mem_cons_self rfl
  refine (dirname_mem_folders h hmem).imp_right fun hdir => ?_
  have hin : dirname path ∈ before ++ path :: after := by
    rw [← hsplit, orderedFolders, mem_sortBy]
    exact hdir
  refine (mem_append.mp hin).resolve_right fun hlater => ?_
  -- what comes later is at least as deep
  have hdepth : (path.splitOn '/').length ≤ ((dirname path).splitOn '/').length := by
    rcases mem_cons.mp hlater with hself | hlater
    · rw [hself]
    have hle := (pairwise_cons.mp (pairwise_append.mp hsort).2.1).1 _ hlater
    by_contra hlt
    have hgt : compare (path.splitOn '/').length ((dirname path).splitOn '/').length = .gt :=
      Nat.compare_eq_gt.mpr (by omega)
    rw [compareFolders, compareLex, compareOn, hgt] at hle
    cases hle
  rcases (proper_of_mem_folders h hmem).cases with ⟨-, htop, -⟩ | ⟨above, name, rfl, hname, -, -, hdn, -⟩
  · exact (proper_of_mem_folders h hdir).ne_dot htop
  · rw [hdn, splitOn_below above hname, length_append, length_singleton] at hdepth
    omega

lemma named_claimDirectories :
    Named u (orderedFolders files directories) (claimDirectories u files directories) := by
  apply named_run
  · intro path hpath
    exact proper_of_mem_folders h (mem_sortBy.mp hpath)
  · exact parentsFirst_orderedFolders h

end

end Ordered

end RepairFolders
