import Obts.TagPreservation

/-!
# What an update keeps of the front matter

A structured update starts from the front matter of the note, and a raw edit from that of the patched
text, where the bridge writes its own keys anew.
-/
namespace NoteUpdates

open JsonValues AccessPolicies NoteContent

variable {w : Surroundings} {config : AuthorizationConfig} {auth : AuthContext}
  {request : UpdateNoteRequest} {file : MarkdownFile} {now : Int} {markdown : Markdown}
  {source : Source} {raw : Bool} {key : String}

/-- The front matter that an update starts from. -/
def startingFrontmatter (w : Surroundings) (raw : Bool) (request : UpdateNoteRequest)
    (file : MarkdownFile) : Value :=
  if raw then match candidateOf request file.content with
    | .ok candidate => (parseFrontmatter w.yaml candidate).1
    | .error _ => .record []
  else (parseFrontmatter w.yaml file.content).1

/-- The keys that an update writes anew. -/
def Rewrites (raw : Bool) (request : UpdateNoteRequest) (key : String) : Prop :=
  key = "updated" ∨ metadataValue request key ≠ none ∨ key = "tags" ∧ (raw = true ∨ request.tags ≠ none) ∨
    raw = true ∧ (key = "created" ∨ key = "created_by" ∨ key = "vault_bridge")

/-- The new content is parsed to the new front matter and the requested body without the white space around
it. The front matter has each entry of the one that the update starts from, unless the update writes it
anew. A raw edit starts from a mapping, and leaves the time of creation as it was. -/
theorem updates_keep_frontmatter (h : prepareUpdate w config auth source raw file request now = .ok markdown)
    (hyaml : w.yaml.RoundTrips markdown.frontmatter) : (∃ body, requestedBody w raw request file = .ok body ∧
      parseFrontmatter w.yaml (markdown.text w.yaml) = (.record markdown.frontmatter, settledBody body)) ∧
    (∀ key value, (startingFrontmatter w raw request file).get key = some value →
      ¬ Rewrites raw request key → markdown.frontmatter.get key = some value) ∧
    (raw = true → (startingFrontmatter w raw request file).asObject ≠ none ∧
      markdown.frontmatter.get "created" = (parseFrontmatter w.yaml file.content).1.get "created") := by
  rw [parseFrontmatter_text hyaml]
  obtain ⟨note, tags, policy, decision, rfl, rfl, rfl, -, hupdate⟩ := prepareUpdate_ok h
  cases raw with
  | true =>
    obtain ⟨candidate, map, hcand, hobj, hmap, rfl⟩ := rawUpdate_ok hupdate
    refine ⟨⟨(parseFrontmatter w.yaml candidate).2, ?_, ?_⟩, fun key value hvalue hkept => ?_,
      fun _ => ⟨?_, get_restoreManaged (by decide) (by decide)⟩⟩
    · rw [requestedBody, if_pos rfl, hcand]
      rfl
    · rw [← dropWhile_settledBody.1]
      rfl
    · simp only [Rewrites, true_and, true_or, and_true, not_or, not_not] at hkept
      obtain ⟨hupd, hmeta, htags, hcr, hby, hbr⟩ := hkept
      rw [startingFrontmatter, if_pos rfl, hcand] at hvalue
      rw [get_restoreManaged hby hbr, if_neg hcr, Map.get_insert_of_ne hupd,
        Map.get_insert_of_ne htags, hmap key (Or.inr hmeta)]
      exact hvalue
    · rw [startingFrontmatter, if_pos rfl, hcand]
      exact hobj
  | false =>
    obtain ⟨body, hcand, rfl⟩ := structuredUpdate_ok hupdate
    refine ⟨⟨body, hcand, ?_⟩, fun key value hvalue hkept => ?_, fun hraw => Bool.noConfusion hraw⟩
    · rw [← dropWhile_settledBody.2]
    simp only [Rewrites, Bool.false_eq_true, false_and, false_or, or_false, not_or, not_and, not_not] at hkept
    obtain ⟨hupd, hmeta, htags⟩ := hkept
    by_cases hkey : key = "tags"
    · subst hkey
      rw [htags rfl]
      change Value.get (.record _) "tags" = _
      rw [get_tags_rebuildFrontmatter]
      exact hvalue
    · refine (get_rebuildFrontmatter hupd hkey).trans ?_
      rw [metadataValue] at hmeta
      cases hents : request.metadata.bind Value.asObject with
      | none => exact hvalue
      | some entries =>
        rw [hents, Option.bind_some] at hmeta
        rw [Option.map_some, Option.bind_some, get_foldl_remove, hmeta, ite_self, Option.none_or]
        exact hvalue

def bridgedMap : Map := [("vault_bridge", .record [("created_by", .string "me")])]

def renewedMap : Map := [("created_by", .string "me"), ("tags", .array []), ("updated", .string "now")]

def bridgedYaml : Yaml where
  print := fun _ => "renewed".toList
  parse := fun text => some (.record (if text = "renewed".toList then renewedMap else bridgedMap))

def bridgedSurroundings : Surroundings := { claimSurroundings with yaml := bridgedYaml }

/-- A note whose owner is in the old place. -/
def bridgedNote : MarkdownFile := { plainNote with content := "---\nbridged\n---\n\nhello\n".toList }

def moreText : UpdateNoteRequest where
  contentPatch := some [.append "more".toList]
  expectedRevision := some "v1"

lemma prepareUpdate_bridged :
    prepareUpdate bridgedSurroundings openConfig ⟨"agent", "me"⟩ .file true bridgedNote moreText 1
      = .ok ⟨renewedMap, "hello\nmore\n".toList⟩ := rfl

lemma roundTrips_renewed : bridgedYaml.RoundTrips renewedMap :=
  ⟨rfl, by decide +kernel, by decide +kernel⟩

/-- The raw edit of such a note has the body that was asked for. -/
theorem bridged_note_has_body : ∃ body, requestedBody bridgedSurroundings true moreText bridgedNote = .ok body ∧
      parseFrontmatter bridgedYaml (Markdown.text bridgedYaml ⟨renewedMap, "hello\nmore\n".toList⟩)
        = (.record renewedMap, settledBody body) :=
  (updates_keep_frontmatter prepareUpdate_bridged roundTrips_renewed).1

/-- The entry of the old place is lost, although the patch only adds to the body. -/
theorem bridged_note_moves_owner :
    ¬ ∀ (w : Surroundings) (config : AuthorizationConfig) (auth : AuthContext) (source : Source)
      (raw : Bool) (file : MarkdownFile) (request : UpdateNoteRequest) (now : Int) (markdown : Markdown),
      prepareUpdate w config auth source raw file request now = .ok markdown →
      w.yaml.RoundTrips markdown.frontmatter → (raw = true → request.contentPatch ≠ none) →
      ∀ key value, (parseFrontmatter w.yaml file.content).1.get key = some value →
        key ∉ ["tags", "updated"] → metadataValue request key = none →
        (parseFrontmatter w.yaml (markdown.text w.yaml)).1.get key = some value := by
  intro hclaim
  have hkept := hclaim bridgedSurroundings openConfig ⟨"agent", "me"⟩ .file true bridgedNote moreText 1 _
    prepareUpdate_bridged roundTrips_renewed (fun _ => Option.some_ne_none _) "vault_bridge" _ rfl
    (by decide) rfl
  rw [parseFrontmatter_text roundTrips_renewed] at hkept
  cases hkept

end NoteUpdates
