import Mathlib.Data.List.Pairwise
import Mathlib.Data.List.TakeWhile
import Obts.FrontmatterFiles

/-!
# Merging timestamps of frontmatter

Two notes that differ in the values of their configured fields only are merged field by field: the later instant
wins, and of equal ones the spelling of the server.
-/
namespace TimestampMerge

open InsertionOrder SpanSplices FrontmatterFiles List Option
open JsonRecords (Json)

def byStart : FieldSpan → FieldSpan → Ordering := compareOn fun span => span.start

/-- The loop over the spans of both texts. -/
def equalFrom (left right : Text) : List FieldSpan → List FieldSpan → Nat → Nat → Bool
  | leftSpan :: leftSpans, rightSpan :: rightSpans, leftCursor, rightCursor =>
    slice left leftCursor leftSpan.start = slice right rightCursor rightSpan.start &&
      equalFrom left right leftSpans rightSpans leftSpan.stop rightSpan.stop
  | _, _, leftCursor, rightCursor => left.drop leftCursor = right.drop rightCursor

def equalOutsideSpans (left : Text) (leftSpans : List FieldSpan) (right : Text)
    (rightSpans : List FieldSpan) : Bool :=
  equalFrom left right (sortBy byStart leftSpans) (sortBy byStart rightSpans) 0 0

inductive Winner where
  | server
  | device
  | tieServer
  deriving DecidableEq

structure TimestampMergeResult where
  content : Text
  fields : List (Text × Winner)
  deriving DecidableEq

/-- The order in which replacements are applied. -/
def latestFirst : Span × Text → Span × Text → Ordering := fun left right => compare right.1.start left.1.start

/-- What replaces the value of a rule. -/
def replacementOf (compared : MetadataConflictRule × FieldSpan × FieldSpan) : Option (Span × Text) :=
  if compareTimestamp compared.2.1.instant compared.2.2.instant ≥ 0 then none
  else some (compared.2.1.toSpan, compared.2.2.raw)

def winnerOf (server device : FieldSpan) : Winner :=
  let comparison := compareTimestamp server.instant device.instant
  if comparison ≥ 0 then if comparison = 0 then .tieServer else .server else .device

def mergeLatestTimestampFrontmatter (parseDocument : Text → YamlDocument) (serverSource deviceSource : Text)
    (rules : List MetadataConflictRule) : Option TimestampMergeResult :=
  if rules = [] then none
  else do
    let server ← parseMarkdownFrontmatter parseDocument serverSource rules
    let device ← parseMarkdownFrontmatter parseDocument deviceSource rules
    if server.body ≠ device.body then none
    else do
      let serverSpans ← rules.mapM fun rule => valueAt server.fields rule.field
      let deviceSpans ← rules.mapM fun rule => valueAt device.fields rule.field
      if !equalOutsideSpans serverSource serverSpans deviceSource deviceSpans then none
      else
        let compared := rules.zip (serverSpans.zip deviceSpans)
        some {
          content := (sortBy latestFirst (compared.filterMap replacementOf)).foldl (fun content replacement =>
            splice content replacement.1 replacement.2) serverSource
          fields := compared.map fun item => (item.1.field, winnerOf item.2.1 item.2.2) }

lemma compareTimestamp_swap (left right : TimestampInstant) :
    compareTimestamp right left = -compareTimestamp left right := by
  simp only [compareTimestamp]
  split_ifs <;> omega

variable {left right : TimestampInstant}

lemma compareTimestamp_eq_zero_iff : compareTimestamp left right = 0 ↔ left = right := by
  obtain ⟨seconds, nanos⟩ := left
  obtain ⟨seconds', nanos'⟩ := right
  rw [TimestampInstant.mk.injEq, compareTimestamp]
  split_ifs with hsec hlater hnanos hlater
  · exact iff_of_false (by decide) fun h => hsec h.1
  · exact iff_of_false (by decide) fun h => hsec h.1
  · exact iff_of_true rfl ⟨not_not.mp hsec, hnanos⟩
  · exact iff_of_false (by decide) fun h => hnanos h.2
  · exact iff_of_false (by decide) fun h => hnanos h.2

/-- The order of instants. -/
def Earlier (left right : TimestampInstant) : Prop :=
  left.seconds < right.seconds ∨ left.seconds = right.seconds ∧ left.nanos < right.nanos

instance (left right : TimestampInstant) : Decidable (Earlier left right) :=
  inferInstanceAs (Decidable (left.seconds < right.seconds ∨ left.seconds = right.seconds ∧ left.nanos < right.nanos))

lemma compareTimestamp_neg_iff : compareTimestamp left right < 0 ↔ Earlier left right := by
  simp only [compareTimestamp, Earlier]
  split_ifs <;> omega

lemma Earlier.asymm (h : Earlier left right) : ¬ Earlier right left := by
  simp only [Earlier] at h ⊢
  omega

lemma Earlier.total (h : left ≠ right) : Earlier left right ∨ Earlier right left := by
  rw [← compareTimestamp_neg_iff, ← compareTimestamp_neg_iff, compareTimestamp_swap left right]
  have hne : compareTimestamp left right ≠ 0 := fun hzero => h (compareTimestamp_eq_zero_iff.mp hzero)
  omega

lemma validateRule_spec {fields : List Text} {item : Json} {rule : MetadataConflictRule}
    (h : validateRule fields item = .ok rule) : rule.field ∉ fields := by
  rw [validateRule.eq_def] at h
  split at h
  · split at h
    · dsimp only at h
      split at h
      · cases h
      split at h
      · cases h
      split at h
      · cases h
      rename_i hfresh
      cases h
      simpa using hfresh
    · cases h
  · cases h

lemma validateRules_spec {items : List Json} : ∀ {fields : List Text} {rules : List MetadataConflictRule},
    validateRules fields items = .ok rules →
      (rules.map MetadataConflictRule.field).Nodup ∧ ∀ rule ∈ rules, rule.field ∉ fields := by
  induction items with
  | nil =>
    intro fields rules h
    cases h
    exact ⟨nodup_nil, forall_mem_nil _⟩
  | cons item items ih =>
    intro fields rules h
    rw [validateRules] at h
    cases hrule : validateRule fields item with
    | error message =>
      rw [hrule] at h
      cases h
    | ok rule =>
      rw [hrule] at h
      cases hrest : validateRules (fields ++ [rule.field]) items with
      | error message =>
        simp only [bind, Except.bind, hrest] at h
        cases h
      | ok rest =>
        simp only [bind, Except.bind, hrest] at h
        cases h
        obtain ⟨hnodup, hfresh⟩ := ih hrest
        have hapart : ∀ other ∈ rest, other.field ∉ fields ∧ other.field ≠ rule.field := by
          intro other hother
          have hnot := hfresh other hother
          rw [mem_append, mem_singleton, not_or] at hnot
          exact hnot
        constructor
        · rw [map_cons, nodup_cons]
          refine ⟨fun hin => ?_, hnodup⟩
          obtain ⟨other, hother, heq⟩ := mem_map.mp hin
          exact (hapart other hother).2 heq
        · rw [forall_mem_cons]
          exact ⟨validateRule_spec hrule, fun other hother => (hapart other hother).1⟩

/-- No field is configured twice. -/
lemma nodup_of_validate {value : Json} {rules : List MetadataConflictRule}
    (h : validateMetadataConflictRules value = .ok rules) : (rules.map MetadataConflictRule.field).Nodup := by
  rw [validateMetadataConflictRules.eq_def] at h
  split at h
  · split at h
    · cases h
    · exact (validateRules_spec h).1
  · cases h

section Side
variable {parseDocument : Text → YamlDocument} {source : Text} {rules : List MetadataConflictRule}
  {frontmatter : Frontmatter} {yamlStart stop : Nat} {field other : Text}

/-- The span of a field that was read. -/
def fieldAt (frontmatter : Frontmatter) (field : Text) : FieldSpan :=
  (valueAt frontmatter.fields field).getD ⟨⟨0, 0⟩, [], ⟨0, 0⟩⟩

/-- What was read of a note whose YAML text goes from a start to a stop. -/
structure Side (parseDocument : Text → YamlDocument) (source : Text) (rules : List MetadataConflictRule)
    (frontmatter : Frontmatter) (yamlStart stop : Nat) : Prop where
  opening : openingLength source = some yamlStart
  stop_le : stop ≤ source.length
  read : ∀ field ∈ rules.map MetadataConflictRule.field,
    valueAt frontmatter.fields field = some (fieldAt frontmatter field)
  start_le : ∀ field ∈ rules.map MetadataConflictRule.field, yamlStart ≤ (fieldAt frontmatter field).start
  start_lt : ∀ field ∈ rules.map MetadataConflictRule.field,
    (fieldAt frontmatter field).start < (fieldAt frontmatter field).stop
  le_stop : ∀ field ∈ rules.map MetadataConflictRule.field, (fieldAt frontmatter field).stop ≤ stop
  raw : ∀ field ∈ rules.map MetadataConflictRule.field,
    (fieldAt frontmatter field).raw = (fieldAt frontmatter field).toSpan.cut source
  stands : ∀ field ∈ rules.map MetadataConflictRule.field,
    ValueStands parseDocument (slice source yamlStart stop) field
    ((fieldAt frontmatter field).toSpan.shift yamlStart)

lemma exists_side (hparse : ReadsValues parseDocument)
    (h : parseMarkdownFrontmatter parseDocument source rules = some frontmatter) :
    ∃ yamlStart stop, Side parseDocument source rules frontmatter yamlStart stop := by
  obtain ⟨yamlStart, hopen, h⟩ := bind_eq_some_iff.mp h
  obtain ⟨⟨index, length⟩, hcls, h⟩ := bind_eq_some_iff.mp h
  obtain ⟨items, hitems, h⟩ := bind_eq_some_iff.mp h
  obtain ⟨pairs, hpairs, h⟩ := bind_eq_some_iff.mp h
  obtain ⟨fields, hfld, h⟩ := bind_eq_some_iff.mp h
  cases h
  obtain ⟨hindex, hlen⟩ := findClosing_spec hcls
  have hstop : index + (newlineLength (source.drop index)).getD 0 ≤ source.length := by
    have hle := newlineLength_le (source.drop index)
    rw [length_drop] at hle
    omega
  generalize hstoE : index + (newlineLength (source.drop index)).getD 0 = stop at hitems hpairs hstop
  have hyaml : yamlStart ≤ stop := by omega
  obtain ⟨hread, hfrom⟩ := readFields_spec hfld
  have hfield : ∀ field ∈ rules.map MetadataConflictRule.field, ∃ span, valueAt fields field = some span ∧
      ReadFrom items (slice source yamlStart stop) yamlStart field span := by
    intro field hfield
    obtain ⟨rule, hrule, rfl⟩ := mem_map.mp hfield
    obtain ⟨span, hspan⟩ := hread rule hrule
    refine ⟨span, hspan, (readPairs_spec hpairs (hfrom _ _ hspan)).resolve_left nofun⟩
  have hall : ∀ field ∈ rules.map MetadataConflictRule.field,
      ∃ range : Span, ∃ span : FieldSpan, valueAt fields field = some span ∧
        ValueStands parseDocument (slice source yamlStart stop) field range ∧ span.start = yamlStart + range.start ∧
        span.stop = yamlStart + range.stop ∧ span.raw = slice (slice source yamlStart stop) range.start range.stop ∧
        range.start < range.stop ∧ range.stop ≤ stop - yamlStart := by
    intro field hin
    obtain ⟨span, hspan, tagged, anchored, keyRange, value, range, hpair, -, hstart, hend, hraw⟩ := hfield field hin
    have hstd : ValueStands parseDocument (slice source yamlStart stop) field range :=
      ⟨items, tagged, anchored, keyRange, value, hitems, hpair⟩
    have hins := hparse.inside _ _ _ hstd
    rw [length_slice hstop] at hins
    exact ⟨range, span, hspan, hstd, hstart, hend, hraw, hins⟩
  refine ⟨yamlStart, stop, hopen, hstop, ?_, ?_, ?_, ?_, ?_, ?_⟩ <;> intro field hin <;>
    obtain ⟨range, span, hspan, hstd, hstart, hend, hraw, hlt, hle⟩ := hall field hin <;>
    simp [fieldAt, hspan, getD_some]
  · omega
  · omega
  · omega
  · rw [hraw, slice_slice (by omega), Span.cut, hstart, hend]
  · have hrange : span.toSpan.shift yamlStart = range := by
      rw [Span.shift, hstart, hend, Nat.add_sub_cancel_left, Nat.add_sub_cancel_left]
    rwa [hrange]

/-- Values of different fields do not overlap. -/
lemma Side.apart (h : Side parseDocument source rules frontmatter yamlStart stop) (hparse : ReadsValues parseDocument)
    (hfield : field ∈ rules.map MetadataConflictRule.field) (hother : other ∈ rules.map MetadataConflictRule.field)
    (hne : field ≠ other) : (fieldAt frontmatter field).stop ≤ (fieldAt frontmatter other).start ∨
      (fieldAt frontmatter other).stop ≤ (fieldAt frontmatter field).start := by
  have hapart := hparse.apart _ _ _ _ _ (h.stands field hfield) (h.stands other hother) hne
  have hstart := h.start_le field hfield
  have hstaO := h.start_le other hother
  simp only [Span.shift] at hapart
  omega

/-- The fields as their values stand one behind the other. -/
def orderOf (frontmatter : Frontmatter) (rules : List MetadataConflictRule) : List Text :=
  sortBy (compareOn fun field => (fieldAt frontmatter field).start) (rules.map MetadataConflictRule.field)

/-- The spans of the fields in that order. -/
def spansOf (frontmatter : Frontmatter) (order : List Text) : List Span :=
  order.map fun field => (fieldAt frontmatter field).toSpan

instance (frontmatter : Frontmatter) : Std.TransCmp (compareOn fun field => (fieldAt frontmatter field).start) :=
  transCmp_comap compare fun field => (fieldAt frontmatter field).start

lemma mem_orderOf : field ∈ orderOf frontmatter rules ↔ field ∈ rules.map MetadataConflictRule.field := mem_sortBy

section
variable (h : Side parseDocument source rules frontmatter yamlStart stop)
include h

section
variable (hparse : ReadsValues parseDocument)
include hparse

section
variable (hnodup : (rules.map MetadataConflictRule.field).Nodup)
include hnodup

lemma Side.pairwise : (orderOf frontmatter rules).Pairwise fun left right =>
      (fieldAt frontmatter left).stop ≤ (fieldAt frontmatter right).start := by
  have hsort := pairwise_sortBy (compareOn fun field => (fieldAt frontmatter field).start)
    (rules.map MetadataConflictRule.field)
  have hdist : (orderOf frontmatter rules).Nodup := (sortBy_perm _ _).nodup_iff.mpr hnodup
  refine (hsort.and hdist).imp_of_mem fun {left right} hleft hright => ?_
  rintro ⟨hle, hne⟩
  have hstar : (fieldAt frontmatter left).start ≤ (fieldAt frontmatter right).start := Nat.isLE_compare.mp hle
  have hlt := h.start_lt right (mem_orderOf.mp hright)
  rcases h.apart hparse (mem_orderOf.mp hleft) (mem_orderOf.mp hright) hne with hapart | hapart
  · exact hapart
  · omega

lemma Side.ascending : Ascending source.length 0 (spansOf frontmatter (orderOf frontmatter rules)) := by
  apply ascending_of_pairwise
  · exact pairwise_map.mpr (h.pairwise hparse hnodup)
  · intro span hspan
    obtain ⟨field, hfield, rfl⟩ := mem_map.mp hspan
    have hlt := h.start_lt field (mem_orderOf.mp hfield)
    have hle := h.le_stop field (mem_orderOf.mp hfield)
    have hstop := h.stop_le
    refine ⟨Nat.zero_le _, ?_, ?_⟩ <;> omega
  · exact Nat.zero_le _

lemma Side.ascending_yaml : Ascending (slice source yamlStart stop).length 0
      ((orderOf frontmatter rules).map fun field => (fieldAt frontmatter field).toSpan.shift yamlStart) := by
  rw [length_slice h.stop_le]
  apply ascending_of_pairwise
  · refine pairwise_map.mpr ((h.pairwise hparse hnodup).imp fun {left right} hle => ?_)
    exact Nat.sub_le_sub_right hle yamlStart
  · intro span hspan
    obtain ⟨field, hfield, rfl⟩ := mem_map.mp hspan
    have hlt := h.start_lt field (mem_orderOf.mp hfield)
    have hle := h.le_stop field (mem_orderOf.mp hfield)
    simp only [Span.shift]
    refine ⟨Nat.zero_le _, ?_, ?_⟩ <;> omega
  · exact Nat.zero_le _

/-- What stands in the spans are the raw texts. -/
lemma Side.laid : Laid source (spansOf frontmatter (orderOf frontmatter rules))
      (gaps source 0 (spansOf frontmatter (orderOf frontmatter rules)))
      ((orderOf frontmatter rules).map fun field => (fieldAt frontmatter field).raw) := by
  refine ⟨h.ascending hparse hnodup, rfl, ?_⟩
  rw [spansOf, List.map_map]
  exact map_congr_left fun field hfield => (h.raw field (mem_orderOf.mp hfield)).symm

end

end

/-- The values as they are looked up for the rules. -/
lemma Side.mapM : (rules.mapM fun rule => valueAt frontmatter.fields rule.field)
      = some (rules.map fun rule => fieldAt frontmatter rule.field) := by
  have hread : ∀ rule ∈ rules, valueAt frontmatter.fields rule.field = some (fieldAt frontmatter rule.field) :=
    fun rule hrule => h.read rule.field (mem_map_of_mem hrule)
  clear h
  induction rules with
  | nil => rfl
  | cons rule rules ih =>
    rw [forall_mem_cons] at hread
    rw [mapM_cons, hread.1, ih hread.2]
    rfl

end

lemma sortBy_byStart : sortBy byStart (rules.map fun rule => fieldAt frontmatter rule.field)
    = (orderOf frontmatter rules).map (fieldAt frontmatter) := by
  have hsort : (orderOf frontmatter rules).map (fieldAt frontmatter)
      = sortBy byStart ((rules.map MetadataConflictRule.field).map (fieldAt frontmatter)) :=
    map_insertionSort _ _ _ _ fun _ _ _ _ => Iff.rfl
  rw [hsort, List.map_map]
  rfl

end Side

/-- The loop over the spans compares the gaps. -/
lemma equalFrom_iff {left right : Text} : ∀ {leftSpans rightSpans : List FieldSpan} {leftCursor rightCursor : Nat},
    leftSpans.length = rightSpans.length → (equalFrom left right leftSpans rightSpans leftCursor rightCursor ↔
      gaps left leftCursor (leftSpans.map FieldSpan.toSpan) =
        gaps right rightCursor (rightSpans.map FieldSpan.toSpan)) := by
  intro leftSpans
  induction leftSpans with
  | nil =>
    intro rightSpans leftCursor rightCursor hlen
    obtain rfl := length_eq_zero_iff.mp hlen.symm
    simp [equalFrom, gaps]
  | cons leftSpan leftSpans ih =>
    intro rightSpans leftCursor rightCursor hlen
    cases rightSpans with
    | nil => cases hlen
    | cons rightSpan rightSpans =>
      rw [equalFrom, Bool.and_eq_true, decide_eq_true_eq, ih (Nat.succ.inj hlen), map_cons, map_cons, gaps,
        gaps, cons.injEq]

section Order
variable {parseDocument : Text → YamlDocument} {source serverSource deviceSource text : Text}
  {rules : List MetadataConflictRule} {frontmatter server device : Frontmatter}
  {yamlStart stop serverStart serverStop deviceStart deviceStop length n : Nat}

lemma newlineLength_take (h : newlineLength text = some length) (hn : length ≤ n) :
    newlineLength (text.take n) = some length := by
  rw [newlineLength.eq_def] at h
  split at h
  · cases h
    obtain ⟨m, rfl⟩ : ∃ m, n = m + 2 := ⟨n - 2, by omega⟩
    rfl
  · rename_i rest hrest
    cases h
    obtain ⟨m, rfl⟩ : ∃ m, n = m + 1 := ⟨n - 1, by omega⟩
    cases m with
    | zero => rfl
    | succ m =>
      cases rest with
      | nil => rfl
      | cons c rest =>
        have hc : c ≠ 10 := by
          rintro rfl
          exact hrest rest rfl
        simp [newlineLength, hc]
  · cases h
    obtain ⟨m, rfl⟩ : ∃ m, n = m + 1 := ⟨n - 1, by omega⟩
    rfl
  · cases h

/-- A line break does not start with a blank. -/
lemma takeWhile_of_newlineLength (h : newlineLength text = some length) : text.takeWhile isBlank = [] := by
  rw [newlineLength.eq_def] at h
  split at h
  · exact takeWhile_cons_of_neg (by decide)
  · exact takeWhile_cons_of_neg (by decide)
  · exact takeWhile_cons_of_neg (by decide)
  · cases h

/-- The opening delimiter: dashes, blanks and a line break. -/
lemma openingLength_iff : openingLength source = some yamlStart ↔ ∃ blanks text length,
    source = [45, 45, 45] ++ (blanks ++ text) ∧ (∀ c ∈ blanks, isBlank c) ∧ newlineLength text = some length ∧
      yamlStart = 3 + blanks.length + length := by
  have hdrop : ∀ blanks text : Text, ([45, 45, 45] ++ (blanks ++ text)).drop (3 + blanks.length) = text := by
    intro blanks text
    rw [← append_assoc]
    exact drop_left' (by rw [length_append]; rfl)
  have hrest : ∀ rest : Text, ([45, 45, 45] ++ rest).drop 3 = rest := fun rest => rfl
  constructor
  · intro h
    obtain ⟨hdash, h⟩ := ite_none_right_eq_some.mp h
    obtain ⟨length, hlen, hstart⟩ := map_eq_some_iff.mp h
    obtain ⟨rest, rfl⟩ := isPrefixOf_iff_prefix.mp hdash
    rw [hrest] at hlen hstart
    have hsplit : rest = rest.takeWhile isBlank ++ rest.dropWhile isBlank := takeWhile_append_dropWhile.symm
    have htext := hdrop (rest.takeWhile isBlank) (rest.dropWhile isBlank)
    rw [← hsplit] at htext
    rw [htext] at hlen
    exact ⟨_, _, length, congrArg ([45, 45, 45] ++ ·) hsplit, fun c hc => mem_takeWhile_imp hc, hlen, hstart.symm⟩
  · rintro ⟨blanks, text, length, rfl, hblan, hlen, rfl⟩
    have htake : (blanks ++ text).takeWhile isBlank = blanks := by
      rw [takeWhile_append_of_pos hblan, takeWhile_of_newlineLength hlen, append_nil]
    rw [openingLength, if_pos (List.isPrefixOf_iff_prefix.mpr (prefix_append _ _))]
    dsimp only
    rw [hrest, htake, hdrop, hlen]
    rfl

/-- The opening delimiter is read from the text up to its end. -/
lemma openingLength_take (h : openingLength source = some yamlStart) (hn : yamlStart ≤ n) :
    openingLength (source.take n) = some yamlStart := by
  obtain ⟨blanks, text, length, rfl, hblan, hlen, rfl⟩ := openingLength_iff.mp h
  refine openingLength_iff.mpr ⟨blanks, text.take (n - 3 - blanks.length), length, ?_, hblan, ?_, rfl⟩
  · rw [take_append, take_append, take_of_length_le (by simp; omega), take_of_length_le (by simp; omega)]
    rfl
  · exact newlineLength_take hlen (by omega)

/-- Both texts open alike when they are equal before the first value. -/
lemma opening_eq (hsrv : openingLength serverSource = some serverStart)
    (hdev : openingLength deviceSource = some deviceStart) {m : Nat} (hn : serverStart ≤ n) (hm : deviceStart ≤ m)
    (h : serverSource.take n = deviceSource.take m) : serverStart = deviceStart := by
  have hboth := openingLength_take hsrv hn
  rw [h, openingLength_take hdev hm] at hboth
  exact (some.inj hboth).symm

/-- Where the texts agree outside of the values, the fields stand in one order. -/
lemma order_eq (hparse : ReadsValues parseDocument) (hnodup : (rules.map MetadataConflictRule.field).Nodup)
    (hsrv : Side parseDocument serverSource rules server serverStart serverStop)
    (hdev : Side parseDocument deviceSource rules device deviceStart deviceStop)
    (hgaps : gaps serverSource 0 (spansOf server (orderOf server rules))
      = gaps deviceSource 0 (spansOf device (orderOf device rules))) :
        orderOf server rules = orderOf device rules := by
  have hbef := gapsBefore_congr hgaps
  have hyaml : ∀ {source : Text} {frontmatter : Frontmatter} {start stop : Nat},
      Side parseDocument source rules frontmatter start stop →
      gapsBefore (slice source start stop) 0
        ((spansOf frontmatter (orderOf frontmatter rules)).map (Span.shift start))
        = (gapsBefore source 0 (spansOf frontmatter (orderOf frontmatter rules))).modifyHead (drop start) := by
    intro source frontmatter start stop hside
    rw [← gapsBefore_modifyHead, ← gapsBefore_slice (le_refl start), Nat.sub_self]
    intro span hspan
    obtain ⟨field, hfield, rfl⟩ := mem_map.mp hspan
    have hlt := hside.start_lt field (mem_orderOf.mp hfield)
    exact ⟨hside.start_le field (mem_orderOf.mp hfield), hlt.le, hside.le_stop field (mem_orderOf.mp hfield)⟩
  have hstart : orderOf server rules = [] ∨ serverStart = deviceStart := by
    cases hserO : orderOf server rules with
    | nil => exact .inl rfl
    | cons field fields =>
      right
      cases hdord : orderOf device rules with
      | nil =>
        rw [hserO, hdord] at hbef
        cases hbef
      | cons other others =>
        have hfield : field ∈ orderOf server rules := hserO ▸ mem_cons_self
        have hother : other ∈ orderOf device rules := hdord ▸ mem_cons_self
        rw [hserO, hdord, spansOf, spansOf, map_cons, map_cons, gapsBefore, gapsBefore] at hbef
        obtain ⟨hfirst, -⟩ := cons.inj hbef
        exact opening_eq hsrv.opening hdev.opening (hsrv.start_le field (mem_orderOf.mp hfield))
          (hdev.start_le other (mem_orderOf.mp hother)) hfirst
  rcases hstart with hempty | rfl
  · have hrules : rules.map MetadataConflictRule.field = [] := by
      rw [eq_nil_iff_forall_not_mem]
      intro field hfield
      have hin : field ∈ orderOf server rules := mem_orderOf.mpr hfield
      rw [hempty] at hin
      cases hin
    rw [orderOf, orderOf, hrules]
    rfl
  · have hshif : gapsBefore (slice serverSource serverStart serverStop) 0
        ((orderOf server rules).map fun field => (fieldAt server field).toSpan.shift serverStart)
        = gapsBefore (slice deviceSource serverStart deviceStop) 0
          ((orderOf device rules).map fun field => (fieldAt device field).toSpan.shift serverStart) := by
      have hserY := hyaml hsrv
      have hdevY := hyaml hdev
      rw [spansOf, List.map_map] at hserY hdevY
      exact hserY.trans ((congrArg _ hbef).trans hdevY.symm)
    exact hparse.keysFirst _ _ _ _ _ _ (fun field hfield => hsrv.stands field (mem_orderOf.mp hfield))
      (fun field hfield => hdev.stands field (mem_orderOf.mp hfield)) (hsrv.ascending_yaml hparse hnodup)
      (hdev.ascending_yaml hparse hnodup) hshif

end Order

section Content
variable {parseDocument : Text → YamlDocument} {serverSource deviceSource field : Text}
  {rules : List MetadataConflictRule} {server device : Frontmatter}
  {serverStart serverStop deviceStart deviceStop : Nat}

/-- A strictly sorted order is the one that sorting gives. -/
lemma sortBy_eq_of_pairwise {α : Type*} {cmp : α → α → Ordering} [Std.TransCmp cmp] {as bs : List α}
    (h : as.Perm bs) (hsort : bs.Pairwise fun a b => cmp a b = .lt) : sortBy cmp as = bs := by
  have hle : bs.Pairwise fun a b => (cmp a b).isLE = true := hsort.imp fun hlt => by rw [hlt]; rfl
  have hsymm : Std.Symm fun a b : α => a = b ∨ cmp a b = .lt ∨ cmp b a = .lt :=
    ⟨fun a b hab => hab.imp Eq.symm Or.symm⟩
  have hpairs : bs.Pairwise fun a b => a = b ∨ cmp a b = .lt ∨ cmp b a = .lt :=
    hsort.imp fun hlt => .inr (.inl hlt)
  have htotal : ∀ a ∈ bs, ∀ b ∈ bs, a = b ∨ cmp a b = .lt ∨ cmp b a = .lt :=
    fun a ha b hb => List.Pairwise.forall_of_forall
      (R := fun a b : α => a = b ∨ cmp a b = .lt ∨ cmp b a = .lt) (fun _ _ => .inl rfl) hpairs ha hb
  have hstr : ∀ a b : α, cmp a b = .lt → ¬ (cmp b a).isLE = true := by
    intro a b hlt
    rw [@Std.OrientedCmp.eq_swap _ cmp _ b a, hlt]
    decide
  refine ((sortBy_perm cmp as).trans h).eq_of_pairwise ?_ (pairwise_sortBy cmp as) hle
  intro a b ha hb hab hba
  rcases htotal a (h.mem_iff.mp (mem_sortBy.mp ha)) b hb with heq | hlt | hlt
  · exact heq
  · exact absurd hba (hstr a b hlt)
  · exact absurd hab (hstr b a hlt)

/-- The device wins a field. -/
def deviceWins (server device : Frontmatter) (field : Text) : Bool :=
  compareTimestamp (fieldAt server field).instant (fieldAt device field).instant < 0

/-- The raw text of the later side, and of the first one on a tie. -/
def winningText (server device : Frontmatter) (field : Text) : Text :=
  if Earlier (fieldAt server field).instant (fieldAt device field).instant then (fieldAt device field).raw
  else (fieldAt server field).raw

lemma deviceWins_iff : deviceWins server device field ↔
    Earlier (fieldAt server field).instant (fieldAt device field).instant := by
  rw [deviceWins, decide_eq_true_eq, compareTimestamp_neg_iff]

/-- What replaces a value when the device wins. -/
def replacementFor (server device : Frontmatter) (field : Text) : Span × Text :=
  ((fieldAt server field).toSpan, (fieldAt device field).raw)

def mergedContent (serverSource : Text) (server device : Frontmatter) (rules : List MetadataConflictRule) : Text :=
  (sortBy latestFirst (((rules.map MetadataConflictRule.field).filter (deviceWins server device)).map
    (replacementFor server device))).foldl
      (fun content replacement => splice content replacement.1 replacement.2) serverSource

/-- The merged text has the winning texts between the gaps of the server's. -/
lemma mergedContent_eq (hparse : ReadsValues parseDocument) (hnodup : (rules.map MetadataConflictRule.field).Nodup)
    (hsrv : Side parseDocument serverSource rules server serverStart serverStop) :
    mergedContent serverSource server device rules
      = weave (gaps serverSource 0 (spansOf server (orderOf server rules)))
        ((orderOf server rules).map (winningText server device)) := by
  have hlat : Std.TransCmp latestFirst :=
    transCmp_comap (fun a b : Nat => compare b a) fun replacement : Span × Text => replacement.1.start
  have hsort : sortBy latestFirst (((rules.map MetadataConflictRule.field).filter (deviceWins server device)).map
      (replacementFor server device))
      = (((orderOf server rules).filter (deviceWins server device)).map (replacementFor server device)).reverse := by
    apply sortBy_eq_of_pairwise
    · refine List.Perm.trans ?_ (reverse_perm _).symm
      exact ((sortBy_perm _ _).symm.filter _).map _
    rw [pairwise_reverse, pairwise_map]
    refine ((hsrv.pairwise hparse hnodup).filter _).imp_of_mem fun {left right} hleft _ hle => ?_
    have hlt := hsrv.start_lt left (mem_orderOf.mp (mem_of_mem_filter hleft))
    exact Nat.compare_eq_lt.mpr (by simp only [replacementFor]; omega)
  -- values that the server wins stand there already
  have hall : ((orderOf server rules).filter (deviceWins server device)).map (replacementFor server device)
      = ((orderOf server rules).filter (deviceWins server device)).map fun field =>
        ((fieldAt server field).toSpan, winningText server device field) := by
    apply map_congr_left
    intro field hfield
    rw [winningText, if_pos (deviceWins_iff.mp (of_mem_filter hfield))]
    rfl
  have hspans : ((orderOf server rules).map fun field =>
      ((fieldAt server field).toSpan, winningText server device field)).map Prod.fst
      = spansOf server (orderOf server rules) := by
    rw [List.map_map]
    rfl
  have hasc := hsrv.ascending hparse hnodup
  rw [← hspans] at hasc
  have hsame : ∀ field ∈ orderOf server rules, deviceWins server device field = false →
      winningText server device field = (fieldAt server field).toSpan.cut serverSource := by
    intro field hfield hwins
    rw [← Bool.not_eq_true, deviceWins_iff] at hwins
    rw [winningText, if_neg hwins]
    exact hsrv.raw field (mem_orderOf.mp hfield)
  have hcont : mergedContent serverSource server device rules
      = spliceAll serverSource (((orderOf server rules).filter (deviceWins server device)).map fun field =>
        ((fieldAt server field).toSpan, winningText server device field)) := by
    rw [mergedContent, hsort, foldl_reverse, hall]
    rfl
  rw [hcont, spliceAll_filter hasc hsame, spliceAll_eq hasc, take_zero, nil_append, hspans, List.map_map]
  rfl

lemma zip_maps {α β γ : Type*} (f : α → β) (g : α → γ) (as : List α) :
    as.zip ((as.map f).zip (as.map g)) = as.map fun a => (a, f a, g a) := by
  induction as with
  | nil => rfl
  | cons a as ih =>
    rw [map_cons, map_cons, zip_cons_cons, zip_cons_cons, ih]
    rfl

lemma replacements_eq :
    (rules.map fun rule => (rule, fieldAt server rule.field, fieldAt device rule.field)).filterMap replacementOf
      = ((rules.map MetadataConflictRule.field).filter (deviceWins server device)).map
        (replacementFor server device) := by
  induction rules with
  | nil => rfl
  | cons rule rules ih =>
    rw [map_cons, map_cons]
    by_cases hwins : compareTimestamp (fieldAt server rule.field).instant (fieldAt device rule.field).instant < 0
    · have hrepl : replacementOf (rule, fieldAt server rule.field, fieldAt device rule.field)
          = some (replacementFor server device rule.field) := if_neg (not_le.mpr hwins)
      have hdev : deviceWins server device rule.field = true := decide_eq_true hwins
      rw [filterMap_cons_some hrepl, ih, filter_cons_of_pos hdev, map_cons]
    · have hkept : replacementOf (rule, fieldAt server rule.field, fieldAt device rule.field) = none :=
        if_pos (not_lt.mp hwins)
      rw [filterMap_cons_none hkept, ih, filter_cons_of_neg (by simpa [deviceWins] using hwins)]

/-- There is a merge when the bodies and the gaps are equal. -/
lemma merge_eq (hsrd : parseMarkdownFrontmatter parseDocument serverSource rules = some server)
    (hdrd : parseMarkdownFrontmatter parseDocument deviceSource rules = some device)
    (hsrv : Side parseDocument serverSource rules server serverStart serverStop)
    (hdev : Side parseDocument deviceSource rules device deviceStart deviceStop) (hrules : rules ≠ []) :
    mergeLatestTimestampFrontmatter parseDocument serverSource deviceSource rules =
      if server.body = device.body ∧ gaps serverSource 0 (spansOf server (orderOf server rules))
          = gaps deviceSource 0 (spansOf device (orderOf device rules)) then
        some ⟨mergedContent serverSource server device rules,
          rules.map fun rule => (rule.field, winnerOf (fieldAt server rule.field) (fieldAt device rule.field))⟩
      else none := by
  have houts : equalOutsideSpans serverSource (rules.map fun rule => fieldAt server rule.field) deviceSource
      (rules.map fun rule => fieldAt device rule.field) = true ↔
      gaps serverSource 0 (spansOf server (orderOf server rules))
        = gaps deviceSource 0 (spansOf device (orderOf device rules)) := by
    have hlen : ((orderOf server rules).map (fieldAt server)).length =
        ((orderOf device rules).map (fieldAt device)).length := by
      rw [length_map, length_map, orderOf, orderOf, (sortBy_perm _ _).length_eq, (sortBy_perm _ _).length_eq]
    rw [equalOutsideSpans, sortBy_byStart, sortBy_byStart, equalFrom_iff hlen, List.map_map, List.map_map]
    rfl
  rw [mergeLatestTimestampFrontmatter, if_neg hrules, hsrd, hdrd]
  simp only [bind_eq_bind, bind_some]
  by_cases hbody : server.body = device.body
  · rw [if_neg (not_not.mpr hbody), hsrv.mapM, hdev.mapM]
    simp only [bind_some]
    by_cases hequal : equalOutsideSpans serverSource (rules.map fun rule => fieldAt server rule.field) deviceSource
        (rules.map fun rule => fieldAt device rule.field) = true
    · rw [if_neg (by rw [hequal]; decide), if_pos ⟨hbody, houts.mp hequal⟩, zip_maps, replacements_eq, List.map_map]
      rfl
    · rw [if_pos (by rwa [Bool.not_eq_true', ← Bool.not_eq_true]), if_neg fun hboth => hequal (houts.mpr hboth.2)]
  · rw [if_pos hbody, if_neg fun hboth => hbody hboth.1]

/-- The merged text has the winning texts between the common gaps. -/
lemma exists_merged (device : Frontmatter) (hparse : ReadsValues parseDocument)
    (hnodup : (rules.map MetadataConflictRule.field).Nodup)
    (hsrv : Side parseDocument serverSource rules server serverStart serverStop) :
    ∃ spans, Laid (mergedContent serverSource server device rules) spans
      (gaps serverSource 0 (spansOf server (orderOf server rules)))
      ((orderOf server rules).map (winningText server device)) := by
  rw [mergedContent_eq hparse hnodup hsrv]
  apply exists_laid
  rw [length_gaps, spansOf, length_map, length_map]

/-- What a merge owes to its two sides: all four texts are equal outside of the values, in which the fields stand in
one order; the merged text has the values of the later sides; and with the sides exchanged only ties differ. -/
structure Blend (parseDocument : Text → YamlDocument) (serverSource deviceSource : Text)
    (rules : List MetadataConflictRule) (server device : Frontmatter) (content : Text) (spans : List Span)
    (swapped : Text) (swappedSpans : List Span) : Prop where
  serverRead : parseMarkdownFrontmatter parseDocument serverSource rules = some server
  deviceRead : parseMarkdownFrontmatter parseDocument deviceSource rules = some device
  order : orderOf server rules = orderOf device rules
  masks : ∀ placeholder, masked placeholder serverSource (spansOf server (orderOf server rules))
      = masked placeholder content spans ∧
    masked placeholder deviceSource (spansOf device (orderOf device rules)) = masked placeholder content spans ∧
    masked placeholder swapped swappedSpans = masked placeholder content spans
  ascending : Ascending content.length 0 spans ∧ Ascending swapped.length 0 swappedSpans
  values : spans.map (fun span => span.cut content) = (orderOf server rules).map (winningText server device)
  swappedValues : swappedSpans.map (fun span => span.cut swapped) =
    (orderOf server rules).map (winningText device server)
  ties : ∀ field ∈ orderOf server rules, (fieldAt server field).instant ≠ (fieldAt device field).instant →
    winningText device server field = winningText server device field
  same : (∀ field ∈ orderOf server rules, (fieldAt server field).instant ≠ (fieldAt device field).instant) →
    swapped = content

lemma winningText_swap (h : (fieldAt server field).instant ≠ (fieldAt device field).instant) :
    winningText device server field = winningText server device field := by
  rw [winningText, winningText]
  rcases Earlier.total h with hear | hear
  · rw [if_neg hear.asymm, if_pos hear]
  · rw [if_pos hear, if_neg hear.asymm]

/-- A merge of two notes blends them, and the merge with the sides exchanged is its counterpart. -/
theorem mergeLatestTimestampFrontmatter_blend (hparse : ReadsValues parseDocument) {value : Json}
    (hrules : validateMetadataConflictRules value = .ok rules) {result : TimestampMergeResult}
    (h : mergeLatestTimestampFrontmatter parseDocument serverSource deviceSource rules = some result) :
    ∃ swapped, mergeLatestTimestampFrontmatter parseDocument deviceSource serverSource rules = some swapped ∧
      ∃ server device spans swappedSpans, Blend parseDocument serverSource deviceSource rules server device
        result.content spans swapped.content swappedSpans := by
  have hnodup := nodup_of_validate hrules
  have hsome : ∃ server device, rules ≠ [] ∧ parseMarkdownFrontmatter parseDocument serverSource rules = some server ∧
      parseMarkdownFrontmatter parseDocument deviceSource rules = some device := by
    have hread := h
    rw [mergeLatestTimestampFrontmatter] at hread
    split at hread
    · cases hread
    rename_i hne
    obtain ⟨server, hsrd, hread⟩ := bind_eq_some_iff.mp hread
    obtain ⟨device, hdrd, -⟩ := bind_eq_some_iff.mp hread
    exact ⟨server, device, hne, hsrd, hdrd⟩
  obtain ⟨server, device, hne, hsrd, hdrd⟩ := hsome
  obtain ⟨serverStart, serverStop, hsrv⟩ := exists_side hparse hsrd
  obtain ⟨deviceStart, deviceStop, hdev⟩ := exists_side hparse hdrd
  rw [merge_eq hsrd hdrd hsrv hdev hne] at h
  obtain ⟨hequal, h⟩ := ite_none_right_eq_some.mp h
  obtain ⟨hbody, hgaps⟩ := hequal
  cases h
  have horder := order_eq hparse hnodup hsrv hdev hgaps
  have hswap := merge_eq hdrd hsrd hdev hsrv hne
  rw [if_pos ⟨hbody.symm, hgaps.symm⟩] at hswap
  obtain ⟨spans, hmrg⟩ := exists_merged device hparse hnodup hsrv
  obtain ⟨swappedSpans, hswa⟩ := exists_merged server hparse hnodup hdev
  refine ⟨_, hswap, server, device, spans, swappedSpans, hsrd, hdrd, horder, ?_,
    ⟨hmrg.ascending, hswa.ascending⟩, hmrg.values_eq, ?_, fun field _ hne => winningText_swap hne, ?_⟩
  · intro placeholder
    have hserL := hsrv.laid hparse hnodup
    have hdevL := hdev.laid hparse hnodup
    rw [hserL.masked_eq, hdevL.masked_eq, hmrg.masked_eq, hswa.masked_eq, ← hgaps, ← horder]
    simp only [List.map_map]
    exact ⟨rfl, rfl, rfl⟩
  · rw [horder]
    exact hswa.values_eq
  · intro hnone
    have hvals : (orderOf server rules).map (winningText device server)
        = (orderOf server rules).map (winningText server device) :=
      map_congr_left fun field hfield => winningText_swap (hnone field hfield)
    have hswaT := hswa.eq_weave
    rw [← hgaps, ← horder, hvals] at hswaT
    exact hswaT.trans hmrg.eq_weave.symm

end Content

/-- A parser of texts with one line, the field `updated` and a timestamp of twenty units. -/
def parseUpdated (text : Text) : YamlDocument :=
  if text.take 9 = units "updated: " && text.length = 30 then
    ⟨0, 0, .collection true false false [.pair (.scalar false false (some (units "updated")) (some ⟨0, 7⟩))
      (.scalar false false (some (slice text 9 29)) (some ⟨9, 29⟩))]⟩
  else ⟨1, 0, .null⟩

lemma valueStands_parseUpdated {text key : Text} {span : Span} (h : ValueStands parseUpdated text key span) :
    key = units "updated" ∧ span = ⟨9, 29⟩ ∧ text.length = 30 := by
  obtain ⟨items, tagged, anchored, keyRange, value, hitems, hpair⟩ := h
  rw [parseUpdated] at hitems
  split at hitems
  · rename_i htext
    cases hitems
    rw [mem_singleton] at hpair
    injection hpair with hkey hvalue
    injection hkey with _ _ hkey _
    injection hvalue with _ _ _ hrange
    rw [Bool.and_eq_true, decide_eq_true_eq, decide_eq_true_eq] at htext
    exact ⟨some.inj hkey, some.inj hrange, htext.2⟩
  · cases hitems

lemma readsValues_parseUpdated : ReadsValues parseUpdated := by
  constructor
  · intro text key span hstd
    obtain ⟨-, rfl, hlen⟩ := valueStands_parseUpdated hstd
    dsimp only
    omega
  · intro text key other span otherSpan hstd hother hne
    exact absurd ((valueStands_parseUpdated hstd).1.trans (valueStands_parseUpdated hother).1.symm) hne
  · intro text text' keys keys' spans spans' hstd hstd' _ _ hgaps
    have hkeys := eq_replicate_of_mem fun key hkey => (valueStands_parseUpdated (hstd key hkey)).1
    have hkeys' := eq_replicate_of_mem fun key hkey => (valueStands_parseUpdated (hstd' key hkey)).1
    have hlen := congrArg length hgaps
    rw [length_gapsBefore, length_gapsBefore, length_map, length_map] at hlen
    rw [hkeys, hkeys', hlen]

def updatedRules : Json :=
  .array [.record [("field", .string "updated"), ("strategy", .string "latest_timestamp")]]

def earlierNote : Text := units "---\nupdated: 2026-01-01T00:00:00Z\n---\nbody\n"

def laterNote : Text := units "---\nupdated: 2026-01-03T00:00:00Z\n---\nbody\n"

theorem laterNote_blend : ∃ swapped,
    mergeLatestTimestampFrontmatter parseUpdated laterNote earlierNote [⟨units "updated", .latestTimestamp⟩] =
      some swapped ∧
      ∃ server device spans swappedSpans, Blend parseUpdated earlierNote laterNote
        [⟨units "updated", .latestTimestamp⟩] server device laterNote spans swapped.content swappedSpans := by
  have hrules : validateMetadataConflictRules updatedRules = .ok [⟨units "updated", .latestTimestamp⟩] := by
    decide +kernel
  have hmerge : mergeLatestTimestampFrontmatter parseUpdated earlierNote laterNote
      [⟨units "updated", .latestTimestamp⟩]
      = some ⟨laterNote, [(units "updated", .device)]⟩ := by
    decide +kernel
  exact mergeLatestTimestampFrontmatter_blend readsValues_parseUpdated hrules hmerge

end TimestampMerge
