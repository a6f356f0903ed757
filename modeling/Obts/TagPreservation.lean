import Obts.NoteOwnership
import Obts.TagForms

/-!
# Protected tags

The rules for editing name tags that an edit must not take from a note. The raw edit and a structured
update that names tags add those that the note has to the tags of the front matter. A structured update
that names none leaves the front matter as it is, whether or not the new body has the tags of the old.
-/
namespace NoteUpdates

open JsonValues RustText AccessPolicies NoteContent List Map

variable {w : Surroundings} {config : AuthorizationConfig} {auth : AuthContext}
variable {request : UpdateNoteRequest} {file : MarkdownFile} {now : Int} {markdown : Markdown}
variable {source : Source} {raw : Bool} {tag : String}
  {tags preserveTags existing named protect : List String} {timestamp : Int → String}
  {decision : PolicyDecision} {value : Value} {body : Text}

section Protected
variable (w : Surroundings) (config : AuthorizationConfig) (auth : AuthContext)

/-- The tags that the indexer derives from a content. -/
def indexedTags (file : MarkdownFile) (content : Text) : List String :=
  (noteInputFromRawMarkdown w.yaml w.inlineTags file.path content).tags

/-- The note before the update, as the rules for editing see it. -/
def policyNoteBefore (source : Source) (file : MarkdownFile) : PolicyNote :=
  let note := noteInputFromRawMarkdown w.yaml w.inlineTags file.path file.content
  policyNoteOf file note (existingTags source note)

/-- The tags that the matching rules preserve. -/
def protectedTags (source : Source) (file : MarkdownFile) (now : Int) : List String :=
  match config.get auth.context with
  | none => []
  | some policy =>
    (policy.edit.filter fun rule =>
      rule.isAllow && rule.applies w.regex (policyNoteBefore w source file) auth.principal now).flatMap
      AccessRule.preserveTags

/-- No protected tag is lost. -/
def KeepsProtectedTags (source : Source) (file : MarkdownFile) (now : Int) (content : Text) : Prop :=
  ∀ tag ∈ protectedTags w config auth source file now,
    HasTag (indexedTags w file file.content) tag → HasTag (indexedTags w file content) tag

end Protected

lemma preserveTags_foldl {rules : List AccessRule} : (rules.foldl mergeRuleDecision decision).preserveTags
      = (rules.flatMap AccessRule.preserveTags).foldl addUniqueTag decision.preserveTags := by
  induction rules generalizing decision with
  | nil => rfl
  | cons rule rules ih =>
    rw [foldl_cons, ih, flatMap_cons, foldl_append]
    rfl

lemma preserveTags_decision
    (h : policyDecisionFor w.regex config auth .edit (policyNoteBefore w source file) now = some decision) :
    decision.preserveTags = (protectedTags w config auth source file now).foldl addUniqueTag [] := by
  obtain ⟨policy, hpol, h⟩ := Option.bind_eq_some_iff.mp h
  dsimp only at h
  split at h
  · cases h
  split at h
  · cases h
  cases h
  rw [protectedTags, hpol, preserveTags_foldl]
  rfl

lemma hasTag_existingTags {note : NoteInput} : HasTag (existingTags source note) tag ↔ HasTag note.tags tag := by
  cases source with
  | index => simp [HasTag, existingTags]
  | file => rfl

/-- The indexer finds a tag in the body or in the front matter. -/
lemma hasTag_indexedTags {content : Text} : HasTag (indexedTags w file content) tag ↔
      HasTag (w.inlineTags (parseFrontmatter w.yaml content).2) tag ∨
      ∃ named ∈ namedTags (parseFrontmatter w.yaml content).1, Derives named tag := by
  rw [← hasTag_extractFrontmatterTags, ← hasTag_append, indexedTags, noteInputFromRawMarkdown]
  rw [hasTag_sortDedup, hasTag_sortDedup_eq]

lemma namedTags_tagValues (h : value.get "tags" = some (tagValues tags)) : namedTags value = tags := by
  rw [namedTags, h, tagValues]
  induction tags with
  | nil => rfl
  | cons tag tags ih =>
    simp [Value.asStr, Function.comp_def]

lemma normalizeTag_ne_empty {tag : String} (h : normalizeTag tag ≠ "") : tag ≠ "" := by
  rintro rfl
  exact h (by decide)

lemma isPreserved_iff : isPreserved existing tag ↔ HasTag existing tag :=
  any_eq_true

lemma exists_derives_iff : (∃ written ∈ named, Derives written tag) ↔
      ∃ key ∈ named.map policyTag, key ≠ "" ∧ normalizeTag key = policyTag tag := by
  simp [Derives, policyTag]

/-- What is added for the protected tags is derived from those that the note has. -/
lemma derives_withPreserved :
    (∃ written ∈ withPreserved named (protect.foldl addUniqueTag []) existing, Derives written tag) ↔
      (∃ written ∈ named, Derives written tag) ∨ ∃ kept ∈ protect, HasTag existing (normalizeTag kept) ∧
        Derives (normalizeTag (normalizeTag kept)) tag := by
  rw [exists_derives_iff, exists_derives_iff, withPreserved]
  have hsort : ∀ {key : String} {all : List String},
      key ∈ (sortDedup eqIgnoreAsciiCase all).map policyTag ↔ key ∈ all.map policyTag :=
    mem_map_sortDedup fun a b hab => policyTag_of_eqIgnoreAsciiCase hab
  simp only [hsort, mem_map_foldl_addUniqueTag, mem_filter, isPreserved_iff]
  constructor
  · rintro ⟨key, hkey | ⟨kept, ⟨hkept, hex⟩, hne, rfl⟩, hder⟩
    · exact .inl ⟨key, hkey, hder⟩
    have hmem := mem_map_of_mem (f := policyTag) hkept
    rw [mem_map_foldl_addUniqueTag] at hmem
    rcases hmem with hmem | ⟨first, hfirst, -, hsame⟩
    · cases hmem
    refine .inr ⟨first, hfirst, ?_, ?_⟩
    · rw [hasTag_iff] at hex ⊢
      rw [← hsame]
      exact hex
    · rw [policyTag_normalizeTag, hsame, ← policyTag_normalizeTag] at hder
      exact hder
  · rintro (⟨key, hkey, hder⟩ | ⟨kept, hkept, hex, hder⟩)
    · exact ⟨key, .inl hkey, hder⟩
    have hne : normalizeTag (normalizeTag kept) ≠ "" := by
      have hwr := hder.1
      rw [Ne, policyTag_eq_empty] at hwr
      exact normalizeTag_ne_empty hwr
    have hmem : policyTag (normalizeTag kept) ∈ (protect.foldl addUniqueTag []).map policyTag :=
      mem_map_foldl_addUniqueTag.mpr (.inr ⟨kept, hkept, normalizeTag_ne_empty hne, rfl⟩)
    obtain ⟨first, hfirst, hsame⟩ := mem_map.mp hmem
    refine ⟨policyTag (normalizeTag (normalizeTag kept)), .inr ⟨first, ⟨hfirst, ?_⟩, ?_, ?_⟩, hder⟩
    · rw [hasTag_iff] at hex ⊢
      rw [hsame]
      exact hex
    · rw [Ne, ← policyTag_eq_empty, hsame, policyTag_eq_empty]
      exact hne
    · rw [policyTag_normalizeTag, policyTag_normalizeTag first, hsame]

section Keeping
variable (w : Surroundings)

/-- A body without the white space around it, and a line break after it. -/
def settledBody (body : Text) : Text := if trimText body = [] then [] else trimText body ++ ['\n']

/-- The body that a request asks for. -/
def requestedBody (raw : Bool) (request : UpdateNoteRequest) (file : MarkdownFile) : Except WriteError Text :=
  if raw then (candidateOf request file.content).map fun candidate => (parseFrontmatter w.yaml candidate).2
  else candidateOf request (parseFrontmatter w.yaml file.content).2

/-- The tags that an update names: those of the request, or in a raw edit those of the new front
matter. -/
def requestedTags (request : UpdateNoteRequest) (file : MarkdownFile) : List String :=
  request.tags.getD (match candidateOf request file.content with
    | .ok candidate => extractFrontmatterTags (parseFrontmatter w.yaml candidate).1
    | .error _ => [])

/-- The tag stays as it is indexed again: from a tag that is named, or from one that is preserved. -/
def Rewritten (named protect existing : List String) (tag : String) : Prop :=
  (∃ written ∈ named, Derives written tag) ∨
    ∃ kept ∈ protect, HasTag existing (normalizeTag kept) ∧ Derives (normalizeTag (normalizeTag kept)) tag

/-- The body has the tag, or the front matter: after a structured update that names no tags those that
were there, else those that are named and preserved. -/
def Stays (config : AuthorizationConfig) (auth : AuthContext) (source : Source) (raw : Bool)
    (file : MarkdownFile) (request : UpdateNoteRequest) (now : Int) (tag : String) : Prop :=
  (∃ body, requestedBody w raw request file = .ok body ∧ HasTag (w.inlineTags (settledBody body)) tag) ∨
  if raw = false ∧ request.tags = none then
    HasTag (extractFrontmatterTags (parseFrontmatter w.yaml file.content).1) tag
  else
    Rewritten (requestedTags w request file) (protectedTags w config auth source file now)
      (indexedTags w file file.content) tag

end Keeping

lemma dropWhile_settledBody : (settledBody body).dropWhile isLineBreak = settledBody body ∧
      (trimText body ++ ['\n']).dropWhile isLineBreak = settledBody body := by
  rw [settledBody]
  split
  · rename_i hempty
    rw [hempty]
    exact ⟨rfl, rfl⟩
  rename_i hne
  obtain ⟨c, rest, hcons⟩ := exists_cons_of_ne_nil hne
  have hfirst : isWhitespace c = false := dropWhile_not_head (dropWhile_trimText.trans hcons)
  have hbreak : ¬ isLineBreak c = true := by
    intro h
    rw [isLineBreak, Bool.or_eq_true, decide_eq_true_eq, decide_eq_true_eq] at h
    rcases h with rfl | rfl
    · exact absurd hfirst (by decide)
    · exact absurd hfirst (by decide)
  rw [hcons, cons_append, dropWhile_cons_of_neg hbreak]
  exact ⟨rfl, rfl⟩

lemma extractFrontmatterTags_congr {left right : Value} (h : left.get "tags" = right.get "tags") :
    extractFrontmatterTags left = extractFrontmatterTags right := by
  rw [extractFrontmatterTags, extractFrontmatterTags, namedTags, namedTags, h]

lemma get_tags_restoreManaged {map : Map} {existing : Value} :
    Value.get (.record (restoreManaged timestamp map tags existing now)) "tags" = some (tagValues tags) := by
  rw [Value.get, get_restoreManaged (by decide) (by decide), if_neg (by decide),
    get_insert_of_ne (by decide), get_insert_self]

lemma get_tags_rebuildFrontmatter {named : Option (List String)} {metadata : Option Map} {existing : Value} :
    Value.get (.record (rebuildFrontmatter timestamp named metadata existing now)) "tags"
      = (named.map tagValues).or (existing.get "tags") := by
  have hmeta (entries fm : Map) :
      get (fm.extend (entries.filter fun entry => !(["tags", "updated"].contains entry.1))) "tags"
        = fm.get "tags" := by
    have hfilt : get (entries.filter fun entry => !(["tags", "updated"].contains entry.1)) "tags"
        = none := by
      refine Eq.trans (get_filter (p := fun key => !(["tags", "updated"].contains key))) ?_
      rw [if_neg (by decide)]
    rw [get_extend, hfilt, Option.none_or]
  cases named with
  | none =>
    cases metadata with
    | none => exact (get_insert_of_ne (by decide)).trans get_object
    | some entries => exact (hmeta entries _).trans ((get_insert_of_ne (by decide)).trans get_object)
  | some tags =>
    cases metadata with
    | none => exact get_insert_self
    | some entries => exact (hmeta entries _).trans get_insert_self

lemma derives_namedTags (h : value.get "tags"
      = some (tagValues (withPreserved named (protect.foldl addUniqueTag []) existing))) :
    HasTag (extractFrontmatterTags value) tag ↔ Rewritten named protect existing tag := by
  have hnamed : namedTags value = withPreserved named (protect.foldl addUniqueTag []) existing :=
    namedTags_tagValues h
  rw [hasTag_extractFrontmatterTags, hnamed, derives_withPreserved, Rewritten]

lemma exists_requestedBody (h : requestedBody w raw request file = .ok body) :
    (∃ asked, requestedBody w raw request file = .ok asked ∧
      HasTag (w.inlineTags (settledBody asked)) tag) ↔ HasTag (w.inlineTags (settledBody body)) tag := by
  rw [h]
  simp

lemma rewritten_existingTags : Rewritten named protect (existingTags source
        (noteInputFromRawMarkdown w.yaml w.inlineTags file.path file.content)) tag ↔
      Rewritten named protect (indexedTags w file file.content) tag := by
  simp [Rewritten, hasTag_existingTags, indexedTags]

/-- The tags of the new content are those of the body and those of the front matter. -/
lemma hasTag_prepareUpdate_iff (h : prepareUpdate w config auth source raw file request now = .ok markdown)
    (hyaml : w.yaml.RoundTrips markdown.frontmatter) : HasTag (indexedTags w file (markdown.text w.yaml)) tag ↔
      Stays w config auth source raw file request now tag := by
  obtain ⟨note, tags, policy, decision, rfl, rfl, rfl, hdec, hupd⟩ := prepareUpdate_ok h
  rw [preserveTags_decision hdec] at hupd
  rw [hasTag_indexedTags, parseFrontmatter_text hyaml, Stays, ← hasTag_extractFrontmatterTags]
  cases raw with
  | true =>
    obtain ⟨candidate, map, hcand, -, hmap, rfl⟩ := rawUpdate_ok hupd
    have hbody : requestedBody w true request file = .ok (parseFrontmatter w.yaml candidate).2 := by
      rw [requestedBody, if_pos rfl, hcand]
      rfl
    have htags : Value.get (.record map) "tags" = (parseFrontmatter w.yaml candidate).1.get "tags" :=
      hmap "tags" (.inl (by decide))
    have hnamed : request.tags.getD (extractFrontmatterTags (.record map))
        = requestedTags w request file := by
      rw [requestedTags, hcand, extractFrontmatterTags_congr htags]
    have hraw : ¬ (true = false ∧ request.tags = none) := fun hplain => Bool.noConfusion hplain.1
    rw [exists_requestedBody hbody, if_neg hraw, derives_namedTags get_tags_restoreManaged, hnamed,
      rewritten_existingTags]
    refine or_congr_left ?_
    change HasTag (w.inlineTags ((settledBody _).dropWhile isLineBreak)) tag ↔ _
    rw [dropWhile_settledBody.1]
  | false =>
    obtain ⟨body, hcand, rfl⟩ := structuredUpdate_ok hupd
    have hbody : requestedBody w false request file = .ok body := hcand
    rw [exists_requestedBody hbody]
    dsimp only
    rw [dropWhile_settledBody.2]
    refine or_congr_right ?_
    cases htags : request.tags with
    | none =>
      rw [if_pos ⟨rfl, rfl⟩, extractFrontmatterTags_congr get_tags_rebuildFrontmatter]
      rfl
    | some named =>
      rw [if_neg (by simp), derives_namedTags (get_tags_rebuildFrontmatter), rewritten_existingTags,
        requestedTags, htags, Option.getD_some]

/-- An update keeps the protected tags exactly when each that the note has stays. -/
theorem updates_keep_protected_tags (h : prepareUpdate w config auth source raw file request now = .ok markdown)
    (hyaml : w.yaml.RoundTrips markdown.frontmatter) :
    KeepsProtectedTags w config auth source file now (markdown.text w.yaml) ↔
      ∀ tag ∈ protectedTags w config auth source file now, HasTag (indexedTags w file file.content) tag →
          Stays w config auth source raw file request now tag := by
  constructor
  · intro hkeeps tag hprot hold
    exact (hasTag_prepareUpdate_iff h hyaml).mp (hkeeps tag hprot hold)
  · intro hstays tag hprot hold
    exact (hasTag_prepareUpdate_iff h hyaml).mpr (hstays tag hprot hold)

/-- A protected tag of the note whose normal form is read back as it is stays where tags are written. -/
lemma stays_of_normal (hprot : tag ∈ protectedTags w config auth source file now)
    (hold : HasTag (indexedTags w file file.content) tag)
    (hnorm : normalizeTag (normalizeTag tag) = normalizeTag tag) (hne : normalizeTag tag ≠ "")
    (hwrs : ¬ (raw = false ∧ request.tags = none)) : Stays w config auth source raw file request now tag := by
  have hkey : policyTag (normalizeTag tag) = policyTag tag := by rw [policyTag, hnorm, ← policyTag]
  refine .inr ?_
  rw [if_neg hwrs]
  refine .inr ⟨tag, hprot, ?_, ?_, ?_⟩
  · rw [hasTag_iff] at hold ⊢
    rw [hkey]
    exact hold
  · rw [hnorm, hkey, Ne, policyTag_eq_empty]
    exact hne
  · rw [hnorm, hkey, ← policyTag_normalizeTag, hkey]

def updatedText : Text := "updated: now".toList

def taggedText : Text := "tags:\n- ai\nupdated: now".toList

def updatedMap : Map := [("updated", .string "now")]

def taggedMap : Map := ("tags", tagValues ["ai"]) :: updatedMap

def tagYaml : Yaml where
  print := fun m => if (m.get "tags").isSome then taggedText else updatedText
  parse := fun text =>
    if text = updatedText then some (.record updatedMap)
    else if text = taggedText then some (.record taggedMap)
    else none

def tagSurroundings : Surroundings :=
  { claimSurroundings with
    yaml := tagYaml
    inlineTags := fun body => if body = "hello #ai\n".toList then ["ai"] else [] }

def tagConfig : AuthorizationConfig :=
  [("agent", {
    read := [everyone], create := [], edit := [{ everyone with preserveTags := ["ai"] }] })]

/-- A note with a protected tag in its body. -/
def taggedNote : MarkdownFile := { plainNote with content := "hello #ai\n".toList }

def newBody : UpdateNoteRequest where
  content := some "bye".toList
  expectedRevision := some "v1"

lemma prepareUpdate_tagged (source : Source) (raw : Bool) :
    prepareUpdate tagSurroundings tagConfig ⟨"agent", "me"⟩ source raw taggedNote newBody 1
      = .ok ⟨if raw then taggedMap else updatedMap, "bye\n".toList⟩ := by
  cases source <;> cases raw <;> rfl

lemma roundTrips_updated : tagYaml.RoundTrips updatedMap :=
  ⟨rfl, by decide +kernel, by decide +kernel⟩

lemma roundTrips_tagged : tagYaml.RoundTrips taggedMap :=
  ⟨rfl, by decide +kernel, by decide +kernel⟩

lemma protectedTags_tagged (source : Source) :
    protectedTags tagSurroundings tagConfig ⟨"agent", "me"⟩ source taggedNote 1 = ["ai"] := by
  cases source <;> rfl

lemma hasTag_taggedNote : HasTag (indexedTags tagSurroundings taggedNote taggedNote.content) "ai" :=
  ⟨"ai", by decide +kernel, by decide +kernel⟩

/-- The raw edit of such a note keeps the tag. -/
theorem tagged_note_keeps_tag : KeepsProtectedTags tagSurroundings tagConfig ⟨"agent", "me"⟩ .index taggedNote 1
      (Markdown.text tagYaml ⟨taggedMap, "bye\n".toList⟩) := by
  refine (updates_keep_protected_tags (prepareUpdate_tagged .index true) roundTrips_tagged).mpr ?_
  intro tag hprot hold
  have htag : tag = "ai" := by simpa [protectedTags_tagged] using hprot
  subst htag
  exact stays_of_normal hprot hold (by decide) (by decide) (by simp)

/-- A structured update that replaces the body drops it. -/
theorem tagged_note_sheds_tag :
    ¬ ∀ (w : Surroundings) (config : AuthorizationConfig) (auth : AuthContext) (source : Source)
      (raw : Bool) (file : MarkdownFile) (request : UpdateNoteRequest) (now : Int) (markdown : Markdown),
      prepareUpdate w config auth source raw file request now = .ok markdown →
      w.yaml.RoundTrips markdown.frontmatter →
      KeepsProtectedTags w config auth source file now (markdown.text w.yaml) := by
  intro hclaim
  have hkept := hclaim tagSurroundings tagConfig ⟨"agent", "me"⟩ .index false taggedNote newBody 1 _
    (prepareUpdate_tagged .index false) roundTrips_updated "ai"
    (by simp [protectedTags_tagged]) hasTag_taggedNote
  have hnone : indexedTags tagSurroundings taggedNote
      (Markdown.text tagYaml ⟨updatedMap, "bye\n".toList⟩) = [] := by decide +kernel
  obtain ⟨candidate, hcand, -⟩ := hkept
  exact absurd (hnone ▸ hcand) not_mem_nil

end NoteUpdates
