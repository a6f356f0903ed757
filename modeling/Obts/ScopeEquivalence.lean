import Obts.ReadScope

/-!
# The scope is what the policy allows

Part by part the condition of a matcher selects a row when the matcher, but for its title pattern,
matches the note. So the condition of the rules selects at least what is allowed, and exactly that when
there is no pattern; with one the loop over the pages removes the rest.
-/
namespace ReadScope

open InsertionOrder ThreeValued JsonValues RustText AccessPolicies List Condition

/-- What a row and its tags tell of a note. -/
structure Mirrors (tags : List TagRow) (n : NoteRow) (note : PolicyNote) : Prop where
  path : n.path = note.path
  createdAt : n.createdAt = note.createdAt
  updatedAt : n.updatedAt = note.updatedAt
  owner : n.policyOwner = note.owner
  tags : ∀ t, (∃ row ∈ tags, row.noteId = n.id ∧ row.policyTag = some t) ↔
    ∃ candidate ∈ note.tags, policyTag candidate = t

section Parts
variable {tags : List TagRow} {n : NoteRow} {note : PolicyNote} {policyTags : List String}
  {c : Condition}

lemma eval_foldl_and {cs : List Condition} : Selects ((cs.foldl .and c).eval tags n) ↔
      Selects (c.eval tags n) ∧ ∀ part ∈ cs, Selects (part.eval tags n) := by
  induction cs generalizing c with
  | nil => simp
  | cons part cs ih =>
    rw [foldl_cons, ih, eval, selects_and, forall_mem_cons, and_assoc]

lemma eval_foldl_or {α : Type*} {as : List α} {f : α → Condition} :
    Selects ((as.foldl (fun c a => .or c (f a)) c).eval tags n) ↔
      Selects (c.eval tags n) ∨ ∃ a ∈ as, Selects ((f a).eval tags n) := by
  induction as generalizing c with
  | nil => simp
  | cons a as ih =>
    rw [foldl_cons, ih, eval, selects_or, exists_mem_cons_iff, or_assoc]

lemma selects_pathMatch {pathPrefix : String} :
    Selects ((pathMatch pathPrefix).eval tags n) ↔ pathHasPrefix n.path pathPrefix := by
  rw [pathMatch, pathHasPrefix]
  split
  · simp [eval]
  split
  · -- the folder itself, with its slash, is a text that starts with it
    simp only [eval, selects_or, selects_some, decide_eq_true_eq, or_iff_right_iff_imp]
    intro hsame
    rw [hsame, startsWith]
    exact List.isPrefixOf_iff_prefix.mpr prefix_rfl
  · simp [eval]

lemma selects_hasTag (h : Mirrors tags n note) : Selects ((Condition.hasTag policyTags).eval tags n) ↔
      ∃ t ∈ policyTags, ∃ candidate ∈ note.tags, policyTag candidate = t := by
  simp only [eval, selects_some, any_eq_true, Bool.and_eq_true, decide_eq_true_eq]
  constructor
  · rintro ⟨row, hrow, hid, t, ht, htag⟩
    exact ⟨t, ht, (h.tags t).mp ⟨row, hrow, hid, htag⟩⟩
  rintro ⟨t, ht, hcand⟩
  obtain ⟨row, hrow, hid, htag⟩ := (h.tags t).mpr hcand
  exact ⟨row, hrow, hid, t, ht, htag⟩

/-- Some of the tags of a rule is a tag of the note. -/
lemma selects_hasTag_map (h : Mirrors tags n note) {expected : List String} :
    Selects ((Condition.hasTag (expected.map policyTag)).eval tags n) ↔
      (expected.any fun tag => note.tags.any fun candidate => tagMatches candidate tag) := by
  rw [selects_hasTag h]
  simp only [mem_map, any_eq_true, tagMatches_iff]
  constructor
  · rintro ⟨_, ⟨tag, htag, rfl⟩, hcand⟩
    exact ⟨tag, htag, hcand⟩
  · rintro ⟨tag, htag, hcand⟩
    exact ⟨_, ⟨tag, htag, rfl⟩, hcand⟩

lemma selects_hasTag_singleton (h : Mirrors tags n note) {tag : String} :
    Selects ((Condition.hasTag [policyTag tag]).eval tags n) ↔
      (note.tags.any fun candidate => tagMatches candidate tag) := by
  rw [← map_singleton, selects_hasTag_map h, any_cons, any_nil, Bool.or_false]

lemma selects_not_hasTag : Selects ((Condition.not (.hasTag policyTags)).eval tags n) ↔
      ¬ Selects ((Condition.hasTag policyTags).eval tags n) := by
  simp [eval, ThreeValued.not]

end Parts

section Matchers
variable {regex : String → Option (String → Bool)}
variable {tags : List TagRow} {n : NoteRow} {note : PolicyNote}
variable {m : AccessMatcher} {auth : AuthContext} {now seconds time : Int} {part : Int → Condition}
  {bound : Option Int}

/-- The matcher without its title pattern. -/
def withoutTitle (m : AccessMatcher) : AccessMatcher := { m with titleRegex := none }

lemma matches_withoutTitle (h : m.matches regex note auth.principal now) :
    (withoutTitle m).matches regex note auth.principal now := by
  rw [AccessMatcher.matches] at h ⊢
  rcases Bool.or_eq_true_iff.mp h with hdef | hparts
  · rw [withoutTitle, hdef, Bool.true_or]
  simp only [Bool.and_eq_true] at hparts
  rw [Bool.or_eq_true_iff]
  right
  simp only [withoutTitle, Bool.and_eq_true]
  exact ⟨hparts.1, rfl⟩

lemma withoutTitle_of_none (h : m.titleRegex = none) : withoutTitle m = m := by
  rw [withoutTitle, ← h]

section
variable (h : Mirrors tags n note)
include h

lemma selects_pathParts : (∀ c ∈ m.pathPrefix.toList.map pathMatch, Selects (c.eval tags n)) ↔
      m.pathPrefix.all (pathHasPrefix note.path) := by
  cases m.pathPrefix <;> simp [selects_pathMatch, h.path]

lemma selects_pathPrefixes : (∀ c ∈ (if m.pathPrefixes.isEmpty then []
      else [m.pathPrefixes.foldl (fun c pathPrefix => Condition.or c (pathMatch pathPrefix))
        (Condition.literal false)]), Selects (c.eval tags n)) ↔
      (m.pathPrefixes.isEmpty || m.pathPrefixes.any (pathHasPrefix note.path)) := by
  cases hempty : m.pathPrefixes.isEmpty with
  | true => simp
  | false =>
    simp only [Bool.false_eq_true, if_false, forall_mem_singleton, Bool.false_or, any_eq_true]
    rw [eval_foldl_or]
    simp [eval, selects_pathMatch, h.path]

lemma selects_tagsAll : (∀ c ∈ m.tagsAll.map fun tag => Condition.hasTag [policyTag tag], Selects (c.eval tags n)) ↔
      (m.tagsAll.all fun tag => note.tags.any fun candidate => tagMatches candidate tag) := by
  rw [forall_mem_map, all_eq_true]
  exact forall₂_congr fun tag _ => selects_hasTag_singleton h

lemma selects_tagsAny : (∀ c ∈ (if m.tagsAny.isEmpty then [] else [Condition.hasTag (m.tagsAny.map policyTag)]),
      Selects (c.eval tags n)) ↔ (m.tagsAny.isEmpty || m.tagsAny.any fun tag => note.tags.any fun candidate =>
        tagMatches candidate tag) := by
  cases hempty : m.tagsAny.isEmpty with
  | true => simp
  | false =>
    simp only [Bool.false_eq_true, if_false, forall_mem_singleton, Bool.false_or]
    exact selects_hasTag_map h

lemma selects_tagsNone :
    (∀ c ∈ (if m.tagsNone.isEmpty then [] else [Condition.not (.hasTag (m.tagsNone.map policyTag))]),
      Selects (c.eval tags n)) ↔
      (!(m.tagsNone.any fun tag => note.tags.any fun candidate => tagMatches candidate tag)) := by
  cases hempty : m.tagsNone.isEmpty with
  | true => simp [isEmpty_iff.mp hempty]
  | false =>
    simp only [Bool.false_eq_true, if_false, forall_mem_singleton]
    rw [selects_not_hasTag, selects_hasTag_map h, Bool.not_eq_true, Bool.not_eq_true']

end

/-- A bound on a time that may be missing. -/
lemma selects_created {holds : Int → Int → Bool} (hpart : ∀ b, Selects ((part b).eval tags n) ↔
      (note.createdAt.any fun created => holds b created)) :
    (∀ c ∈ bound.toList.map part, Selects (c.eval tags n)) ↔
      (bound.all fun b => note.createdAt.any fun created => holds b created) := by
  cases bound with
  | none => simp
  | some b =>
    rw [Option.toList_some, map_singleton, forall_mem_singleton, Option.all_some]
    exact hpart b

lemma selects_updated {holds : Int → Bool} (hpart : ∀ b, Selects ((part b).eval tags n) ↔ holds b) :
    (∀ c ∈ bound.toList.map part, Selects (c.eval tags n)) ↔ bound.all holds := by
  cases bound with
  | none => simp
  | some b =>
    rw [Option.toList_some, map_singleton, forall_mem_singleton, Option.all_some]
    exact hpart b

section
variable (h : Mirrors tags n note)
include h

lemma selects_createdAtLeast : Selects ((Condition.createdAtLeast time).eval tags n) ↔
      (note.createdAt.any fun created => decide (time ≤ created)) := by
  rw [eval, selects_compareWith, h.createdAt, Option.any_eq_true]

lemma selects_createdAtMost : Selects ((Condition.createdAtMost time).eval tags n) ↔
      (note.createdAt.any fun created => decide (created ≤ time)) := by
  rw [eval, selects_compareWith, h.createdAt, Option.any_eq_true]

lemma selects_createdWithin : Selects ((Condition.createdAtLeast (now - windowOf seconds)).eval tags n) ↔
      (note.createdAt.any fun created => decide (now - created ≤ windowOf seconds)) := by
  rw [selects_createdAtLeast h]
  simp only [Option.any_eq_true, decide_eq_true_eq]
  exact exists_congr fun created => and_congr_right fun _ => by omega

lemma selects_updatedWithin : Selects ((Condition.updatedAtLeast (now - windowOf seconds)).eval tags n) ↔
      decide (now - note.updatedAt ≤ windowOf seconds) := by
  rw [eval, selects_some, h.updatedAt, decide_eq_true_eq, decide_eq_true_eq]
  omega

lemma selects_owner : (∀ c ∈ m.owner.toList.map fun owner => if owner then Condition.ownerIs auth.principal
      else Condition.ownerIsDistinct auth.principal, Selects (c.eval tags n)) ↔ (m.owner.all fun required =>
        decide (decide (note.owner = some auth.principal) = required)) := by
  rcases m.owner with _ | _ | _ <;> simp [eval, h.owner]

/-- Part by part, the condition of a matcher is the matcher without its title pattern. -/
lemma selects_matcher : Selects ((matcher m auth now).eval tags n) ↔
      (withoutTitle m).matches regex note auth.principal now := by
  rw [matcher, AccessMatcher.matches]
  split
  · rename_i hdef
    simp [withoutTitle, hdef, eval]
  rename_i hdef
  have hupdAL : ∀ time, Selects ((updatedAtLeast time).eval tags n) ↔
      decide (time ≤ note.updatedAt) = true := fun time => by
    rw [eval, selects_some, h.updatedAt]
  have hupdAM : ∀ time, Selects ((updatedAtMost time).eval tags n) ↔
      decide (note.updatedAt ≤ time) = true := fun time => by
    rw [eval, selects_some, h.updatedAt]
  rw [eval_foldl_and, matcherParts]
  simp only [forall_mem_append]
  rw [selects_pathParts h, selects_pathPrefixes h, selects_tagsAll h, selects_tagsAny h,
    selects_tagsNone h, selects_created fun time => selects_createdAtLeast h,
    selects_created fun time => selects_createdAtMost h, selects_updated hupdAL,
    selects_updated hupdAM, selects_created fun seconds => selects_createdWithin h,
    selects_updated fun seconds => selects_updatedWithin h, selects_owner h]
  simp [withoutTitle, hdef, eval, and_assoc]

end

end Matchers

section Rules
variable {regex : String → Option (String → Bool)}
variable {tags : List TagRow} {n : NoteRow} {note : PolicyNote}
variable {config : AuthorizationConfig} {auth : AuthContext} {now : Int} {rules : List AccessRule}
  {m : AccessMatcher}

lemma mem_allowing : m ∈ allowing rules ↔ ∃ rule ∈ rules, rule.isAllow ∧ rule.matcher = some m := by
  rw [allowing, mem_filterMap]
  refine exists_congr fun rule => and_congr_right fun _ => ?_
  split
  · rename_i hkind
    simp [hkind]
  · rename_i hkind
    simp [hkind]

lemma mem_denying : m ∈ denying rules ↔
      (∃ rule ∈ rules, rule.isDeny ∧ rule.matcher = some m) ∧ m.titleRegex = none := by
  rw [denying, mem_filter, mem_filterMap, Option.isNone_iff_eq_none]
  refine and_congr_left fun _ => exists_congr fun rule => and_congr_right fun _ => ?_
  split
  · rename_i hkind
    simp [hkind]
  · rename_i hkind
    simp [hkind]

/-- What the condition of the rules selects. -/
lemma selects_policy (h : Mirrors tags n note) {rules : AccessPolicy}
    (hrules : config.get auth.context = some rules) :
    Selects ((policy config auth now).1.eval tags n) ↔ (∃ m ∈ allowing rules.read,
        (withoutTitle m).matches regex note auth.principal now) ∧ ∀ m ∈ denying rules.read,
        ¬ (withoutTitle m).matches regex note auth.principal now := by
  have hden : ∀ {ms : List AccessMatcher} {c : Condition}, Selects ((ms.foldl (fun c m =>
      and c (.not (.coalesce (matcher m auth now) false))) c).eval tags n) ↔
      Selects (c.eval tags n) ∧ ∀ m ∈ ms,
        ¬ (withoutTitle m).matches regex note auth.principal now = true := by
    intro ms
    induction ms with
    | nil => simp
    | cons m ms ih =>
      intro c
      rw [foldl_cons, ih, eval, selects_and, eval, eval,
        selects_not_coalesce, selects_matcher h, forall_mem_cons, and_assoc]
  rw [policy, hrules, hden, eval_foldl_or]
  refine and_congr_left fun _ => ?_
  simp only [eval, selects_some, Bool.false_eq_true, false_or]
  exact exists_congr fun m => and_congr_right fun _ => selects_matcher h

/-- What is allowed is selected. -/
lemma selects_of_policyAllows (h : Mirrors tags n note) (halw : policyAllows regex config auth .read note now) :
    Selects ((policy config auth now).1.eval tags n) := by
  obtain ⟨rules, hrules, ⟨rule, hrule, hkind, happ⟩, hdeny⟩ := policyAllows_iff.mp halw
  rw [selects_policy h hrules]
  constructor
  · obtain ⟨m, hm, hmat⟩ := AccessRule.applies_iff.mp happ
    exact ⟨m, mem_allowing.mpr ⟨rule, hrule, hkind, hm⟩, matches_withoutTitle hmat⟩
  intro m hm hmat
  obtain ⟨⟨denying, hden, hkind, hmatc⟩, htitle⟩ := mem_denying.mp hm
  rw [withoutTitle_of_none htitle] at hmat
  exact hdeny denying hden hkind (AccessRule.applies_iff.mpr ⟨m, hmatc, hmat⟩)

/-- When no rule has a title pattern, what is selected is allowed. -/
lemma policyAllows_of_selects (h : Mirrors tags n note) (hexact : (policy config auth now).2 = false)
    (hsel : Selects ((policy config auth now).1.eval tags n)) : policyAllows regex config auth .read note now := by
  rw [policyAllows_iff]
  cases hrules : config.get auth.context with
  | none =>
    rw [policy, hrules] at hsel
    simp [eval] at hsel
  | some rules =>
    have htitle : ∀ rule ∈ rules.read, ∀ m, rule.matcher = some m → m.titleRegex = none := by
      intro rule hrule m hm
      rw [policy, hrules] at hexact
      simp only [any_eq_false, Bool.not_eq_true] at hexact
      have hnone := hexact rule hrule
      rw [hm] at hnone
      simpa using hnone
    obtain ⟨⟨m, hm, hmat⟩, hdeny⟩ := (selects_policy h hrules).mp hsel
    refine ⟨rules, rfl, ?_, ?_⟩
    · obtain ⟨rule, hrule, hkind, hmatc⟩ := mem_allowing.mp hm
      rw [withoutTitle_of_none (htitle rule hrule m hmatc)] at hmat
      exact ⟨rule, hrule, hkind, AccessRule.applies_iff.mpr ⟨m, hmatc, hmat⟩⟩
    intro rule hrule hkind happ
    obtain ⟨m, hmatc, hmat⟩ := AccessRule.applies_iff.mp happ
    have hnone := htitle rule hrule m hmatc
    refine hdeny m (mem_denying.mpr ⟨⟨rule, hrule, hkind, hmatc⟩, hnone⟩) ?_
    rw [withoutTitle_of_none hnone]
    exact hmat

/-- The policy looks at the tags of a note as a set. -/
lemma policyAllows_congr {other : PolicyNote} {operation : Operation} (hpath : other.path = note.path)
    (htitle : other.title = note.title) (htags : ∀ tag, tag ∈ other.tags ↔ tag ∈ note.tags)
    (hcr : other.createdAt = note.createdAt) (hupd : other.updatedAt = note.updatedAt)
    (howner : other.owner = note.owner) : policyAllows regex config auth operation other now
      = policyAllows regex config auth operation note now := by
  have hany : ∀ tag, (other.tags.any fun candidate => tagMatches candidate tag)
      = note.tags.any fun candidate => tagMatches candidate tag := fun tag => by
    rw [Bool.eq_iff_iff, any_eq_true, any_eq_true]
    exact exists_congr fun candidate => and_congr_left fun _ => htags candidate
  have hmat : ∀ m : AccessMatcher, m.matches regex other auth.principal now
      = m.matches regex note auth.principal now := fun m => by
    simp [AccessMatcher.matches, hpath, htitle, hany, hcr, hupd, howner]
  have happ : ∀ rule : AccessRule, rule.applies regex other auth.principal now
      = rule.applies regex note auth.principal now := fun rule => by
    simp [AccessRule.applies, hmat]
  rw [policyAllows, policyAllows, policyDecisionFor, policyDecisionFor]
  simp [happ]

end Rules

section Loop
variable {regex : String → Option (String → Bool)}
variable {config : AuthorizationConfig} {auth : AuthContext} {now : Int} {tables : Tables}
  {after : String} {scope : List String} {state : String × List String} {rows : List NoteRow}
  {last n : NoteRow}

/-- The policy allows every row with the id. -/
def Allowed (regex : String → Option (String → Bool)) (config : AuthorizationConfig)
    (auth : AuthContext) (now : Int) (tables : Tables) (rows : List NoteRow) (id : String) : Prop :=
  ∀ n ∈ rows, n.id = id → policyAllows regex config auth .read (policyNote tables n) now = true

/-- The rows of a page that are not allowed are removed. -/
lemma mem_foldl_checkRow {id : String} : id ∈ (rows.foldl (checkRow regex config auth now tables) state).2 ↔
      id ∈ state.2 ∧ Allowed regex config auth now tables rows id := by
  induction rows generalizing state with
  | nil => simp [Allowed]
  | cons n rows ih =>
    rw [foldl_cons, ih, Allowed, Allowed, forall_mem_cons, ← and_assoc]
    refine and_congr_left fun _ => ?_
    rw [checkRow]
    split
    · rename_i halw
      simp [halw]
    rename_i halw
    simp only [mem_filter, ne_eq, decide_not, Bool.not_eq_true', decide_eq_false_iff_not,
      halw, Bool.false_eq_true, imp_false]
    exact and_congr_right fun _ => ⟨fun hne heq => hne heq.symm, fun hne heq => hne heq.symm⟩

lemma foldl_checkRow_after (h : rows.getLast? = some last) :
    (rows.foldl (checkRow regex config auth now tables) state).1 = last.id := by
  obtain ⟨front, rfl⟩ := List.getLast?_eq_some_iff.mp h
  rw [foldl_append]
  rfl

lemma mem_nextPage (h : n ∈ nextPage tables scope after) :
    n ∈ tables.notes ∧ n.id ∈ scope ∧ byteOrder after n.id = .lt := by
  have hmem := mem_sortBy.mp (mem_of_mem_take h)
  simpa only [mem_filter, Bool.and_eq_true, decide_eq_true_eq] using hmem

/-- What a page is taken from. -/
lemma mem_sorted (hn : n ∈ tables.notes) (hid : n.id ∈ scope) (hafter : byteOrder after n.id = .lt) :
    n ∈ sortBy (fun a b => byteOrder a.id b.id) (tables.notes.filter fun n =>
      decide (n.id ∈ scope) && decide (byteOrder after n.id = .lt)) := by
  rw [mem_sortBy, mem_filter, Bool.and_eq_true, decide_eq_true_eq, decide_eq_true_eq]
  exact ⟨hn, hid, hafter⟩

/-- A page holds every row up to its last one. -/
lemma mem_nextPage_of_le (hdist : (tables.notes.map NoteRow.id).Nodup)
    (hlast : (nextPage tables scope after).getLast? = some last) (hn : n ∈ tables.notes)
    (hid : n.id ∈ scope) (hafter : byteOrder after n.id = .lt)
    (hle : byteOrder last.id n.id ≠ .lt) : n ∈ nextPage tables scope after := by
  have htrans := transCmp_comap byteOrder NoteRow.id
  refine (mem_page (mem_sortBy.mp (mem_sorted hn hid hafter)) hlast).elim id fun hbef => ?_
  have hsame : last.id = n.id := by
    apply byteOrder_eq
    cases horder : byteOrder last.id n.id with
    | lt => exact absurd horder hle
    | eq => rfl
    | gt =>
      rw [horder] at hbef
      cases hbef
  have hrow := (mem_nextPage (mem_of_getLast? hlast)).1
  obtain rfl := inj_on_of_nodup_map hdist hrow hn hsame
  exact mem_of_getLast? hlast

/-- The rows that the loop has still to look at. -/
def remaining (tables : Tables) (after : String) : Nat :=
  (tables.notes.filter fun n => decide (byteOrder after n.id = .lt)).length

/-- The loop ends, and it leaves of the scope what is allowed: what it has passed is checked already. -/
lemma recheck_spec {fuel : Nat}
    (hdist : (tables.notes.map NoteRow.id).Nodup) (hfuel : remaining tables after < fuel)
    (hchk : ∀ id ∈ scope, byteOrder after id ≠ .lt → Allowed regex config auth now tables tables.notes id) :
    ∃ result, recheck regex config auth now tables fuel (after, scope) = some result ∧
      ∀ id, id ∈ result ↔ id ∈ scope ∧ Allowed regex config auth now tables tables.notes id := by
  induction fuel generalizing after scope with
  | zero => exact absurd hfuel (Nat.not_lt_zero _)
  | succ fuel ih =>
    rw [recheck]
    split
    · rename_i hpage
      refine ⟨scope, rfl, fun id => ⟨fun hid => ⟨hid, ?_⟩, fun h => h.1⟩⟩
      rintro n hn rfl
      by_cases hafter : byteOrder after n.id = .lt
      · have hmem := mem_sorted hn hid hafter
        rcases take_eq_nil_iff.mp hpage with hzero | hnil
        · exact absurd hzero (by decide)
        · rw [hnil] at hmem
          exact absurd hmem not_mem_nil
      · exact hchk n.id hid hafter n hn rfl
    · rename_i first rest hpage
      obtain ⟨last, hlast⟩ : ∃ last, (first :: rest).getLast? = some last :=
        ⟨_, List.getLast?_eq_some_getLast (cons_ne_nil first rest)⟩
      have hrows : ∀ n ∈ first :: rest, n ∈ tables.notes ∧ n.id ∈ scope ∧
          byteOrder after n.id = .lt := fun n hn => mem_nextPage (hpage ▸ hn)
      obtain ⟨hnotes, -, hafter⟩ := hrows last (mem_of_getLast? hlast)
      generalize hstate : (first :: rest).foldl (checkRow regex config auth now tables) (after, scope) = state
      have hkept : ∀ id, id ∈ state.2 ↔
          id ∈ scope ∧ Allowed regex config auth now tables (first :: rest) id := fun id => by
        rw [← hstate, mem_foldl_checkRow]
      have hnext : state.1 = last.id := by rw [← hstate, foldl_checkRow_after hlast]
      -- a row up to the last one was checked before or is on the page
      have hpass : ∀ id ∈ state.2, byteOrder state.1 id ≠ .lt →
          Allowed regex config auth now tables tables.notes id := by
        rintro id hid hle n hn rfl
        obtain ⟨hscope, hpagA⟩ := (hkept n.id).mp hid
        by_cases hold : byteOrder after n.id = .lt
        · have hmem := mem_nextPage_of_le hdist (hpage ▸ hlast) hn hscope hold (hnext ▸ hle)
          exact hpagA n (hpage ▸ hmem) rfl
        · exact hchk n.id hscope hold n hn rfl
      have hless : remaining tables state.1 < fuel := by
        have hlt : remaining tables _ < remaining tables after := length_after_lt hnotes hafter
        rw [hnext]
        omega
      obtain ⟨result, hres, hspec⟩ := ih hless hpass
      refine ⟨result, hres, fun id => ?_⟩
      rw [hspec, hkept]
      constructor
      · rintro ⟨⟨hscope, -⟩, halw⟩
        exact ⟨hscope, halw⟩
      · rintro ⟨hscope, halw⟩
        exact ⟨⟨hscope, fun row hrow => halw row (hrows row hrow).1⟩, halw⟩

end Loop

section Projected
variable {regex : String → Option (String → Bool)}
variable {config : AuthorizationConfig} {auth : AuthContext} {now : Int} {vault : Vault}
  {note : StoredNote}

lemma ids_project : (project vault).notes.map NoteRow.id = vault.notes.map StoredNote.path := by
  rw [project, map_map]
  rfl

lemma mem_tagRows (hnote : note ∈ vault.notes) {row : TagRow} :
    row ∈ (project vault).tags ∧ row.noteId = note.path ↔
      ∃ tag ∈ note.tags, row = ⟨note.path, tag, some (policyTag tag)⟩ := by
  rw [project, mem_flatMap]
  constructor
  · rintro ⟨⟨other, hother, hrow⟩, hid⟩
    obtain ⟨tag, htag, rfl⟩ := mem_map.mp hrow
    obtain rfl := inj_on_of_nodup_map vault.distinct hother hnote hid
    exact ⟨tag, mem_ofList.mp htag, rfl⟩
  · rintro ⟨tag, htag, rfl⟩
    exact ⟨⟨note, hnote, mem_map.mpr ⟨tag, mem_ofList.mpr htag, rfl⟩⟩, rfl⟩

/-- The owner is found again in the front matter that the check puts together. -/
lemma ownerFromFrontmatter_column {owner : Option String}
    (h : ∀ name, owner = some name → trim name = name ∧ name ≠ "") :
    ownerFromFrontmatter (.record [("created_by", (owner.map JsonTrees.Tree.string).getD .null)]) = owner := by
  cases owner with
  | none => rfl
  | some name =>
    obtain ⟨htrim, hne⟩ := h name rfl
    simp [ownerFromFrontmatter, ownerFromValue, Value.get, Map.get, Value.asStr, htrim, hne]

lemma mirrors_project (hnote : note ∈ vault.notes) :
    Mirrors (project vault).tags (noteRow note) (policyNoteFromStored note) := by
  refine ⟨rfl, rfl, rfl, rfl, fun t => ?_⟩
  constructor
  · rintro ⟨row, hrow, hid, htag⟩
    obtain ⟨tag, htag', rfl⟩ := (mem_tagRows hnote).mp ⟨hrow, hid⟩
    exact ⟨tag, htag', Option.some.inj htag⟩
  rintro ⟨tag, htag, rfl⟩
  obtain ⟨hrow, hid⟩ := (mem_tagRows hnote).mpr ⟨tag, htag, rfl⟩
  exact ⟨_, hrow, hid, rfl⟩

/-- The check of a row is the policy's decision on the note. -/
lemma policyAllows_noteRow (hnote : note ∈ vault.notes) :
    policyAllows regex config auth .read (policyNote (project vault) (noteRow note)) now
      = policyAllows regex config auth .read (policyNoteFromStored note) now := by
  apply policyAllows_congr
  · rfl
  · rfl
  · intro tag
    simp only [policyNote, mem_sortBy, mem_ofList, mem_map, mem_filter, decide_eq_true_eq]
    constructor
    · rintro ⟨row, hrow, rfl⟩
      obtain ⟨tag, htag, rfl⟩ := (mem_tagRows hnote).mp hrow
      exact htag
    · intro htag
      exact ⟨_, (mem_tagRows hnote).mpr ⟨tag, htag, rfl⟩, rfl⟩
  · rfl
  · rfl
  · exact ownerFromFrontmatter_column fun name => ownerFromFrontmatter_trimmed

/-- The scope is found, and it holds the ids of the notes that the policy lets the caller read. -/
theorem mem_sqlScope_iff (regex : String → Option (String → Bool)) (config : AuthorizationConfig)
    (auth : AuthContext) (now : Int) (vault : Vault) :
    ∃ scope, sqlScope regex config auth now (project vault) = some scope ∧
      ∀ id, id ∈ scope ↔ ∃ note ∈ vault.notes, note.path = id ∧
        policyAllows regex config auth .read (policyNoteFromStored note) now = true := by
  set selected := ((project vault).notes.filter fun n =>
    decide (Selects ((policy config auth now).1.eval (project vault).tags n))).map NoteRow.id
    with hselected
  have hmem : ∀ id, id ∈ selected ↔ ∃ note ∈ vault.notes, note.path = id ∧
      Selects ((policy config auth now).1.eval (project vault).tags (noteRow note)) := by
    intro id
    rw [hselected, mem_map]
    constructor
    · rintro ⟨n, hn, rfl⟩
      obtain ⟨hrow, hsel⟩ := mem_filter.mp hn
      obtain ⟨note, hnote, rfl⟩ := mem_map.mp hrow
      exact ⟨note, hnote, rfl, of_decide_eq_true hsel⟩
    · rintro ⟨note, hnote, rfl, hsel⟩
      exact ⟨noteRow note, mem_filter.mpr ⟨mem_map.mpr ⟨note, hnote, rfl⟩, decide_eq_true hsel⟩, rfl⟩
  rw [sqlScope]
  cases hfall : (policy config auth now).2 with
  | false =>
    refine ⟨selected, by simp [hfall, hselected], fun id => ?_⟩
    rw [hmem]
    refine exists_congr fun note => and_congr_right fun hnote => and_congr_right fun _ => ?_
    exact ⟨policyAllows_of_selects (mirrors_project hnote) hfall, selects_of_policyAllows (mirrors_project hnote)⟩
  | true =>
    have hdist : ((project vault).notes.map NoteRow.id).Nodup := ids_project ▸ vault.distinct
    have hstart : ∀ id ∈ selected, byteOrder "" id ≠ .lt →
        Allowed regex config auth now (project vault) (project vault).notes id := by
      intro id hid hle
      obtain ⟨note, hnote, rfl, -⟩ := (hmem id).mp hid
      exact absurd (byteOrder_empty (vault.named note hnote)) hle
    have hfuel : remaining (project vault) "" < (project vault).notes.length + 1 :=
      Nat.lt_succ_of_le (length_filter_le _ _)
    obtain ⟨scope, hscope, hspec⟩ := recheck_spec hdist hfuel hstart
    refine ⟨scope, by simpa [hfall] using hscope, fun id => ?_⟩
    rw [hspec, hmem]
    constructor
    · rintro ⟨⟨note, hnote, rfl, -⟩, hall⟩
      refine ⟨note, hnote, rfl, ?_⟩
      rw [← policyAllows_noteRow hnote]
      exact hall (noteRow note) (mem_map.mpr ⟨note, hnote, rfl⟩) rfl
    rintro ⟨note, hnote, rfl, halw⟩
    refine ⟨⟨note, hnote, rfl, selects_of_policyAllows (mirrors_project hnote) halw⟩, ?_⟩
    intro n hn hid
    obtain ⟨other, hother, rfl⟩ := mem_map.mp hn
    obtain rfl := inj_on_of_nodup_map vault.distinct hother hnote hid
    rw [policyAllows_noteRow hother]
    exact halw

end Projected

end ReadScope
