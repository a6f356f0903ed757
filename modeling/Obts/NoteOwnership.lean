import Obts.NoteUpdates

/-!
# The owner of a note

The raw edit takes the owner out of both its places and puts the old one back. The structured update
keeps only the keys that it manages away from the caller, and the place below `vault_bridge` is not
among them.
-/
namespace NoteUpdates

open JsonValues RustText AccessPolicies NoteContent Option Map Value

variable {metadata : Option Map}

section Keys
variable {timestamp : Int → String} {map : Map} {key : String}

lemma get_object {value : Value} : Map.get (value.asObject.getD []) key = value.get key := by
  cases value <;> rfl

lemma get_foldl_remove {keys : List String} :
    (keys.foldl Map.remove map).get key = if key ∈ keys then none else map.get key := by
  induction keys generalizing map with
  | nil => simp
  | cons k keys ih =>
    rw [List.foldl_cons, ih]
    by_cases hkey : key = k
    · subst hkey
      simp
    · simp [hkey, get_remove_of_ne hkey]

/-- The metadata of a request, without what the bridge manages. -/
def metadataValue (request : UpdateNoteRequest) (key : String) : Option Value :=
  (request.metadata.bind Value.asObject).bind fun entries => Map.get entries key

/-- A key other than those that the bridge writes is taken from the metadata, else it stays. -/
lemma get_rebuildFrontmatter {tags : Option (List String)}
    {existing : Value} {now : Int} (hupd : key ≠ "updated") (htags : key ≠ "tags") :
    (rebuildFrontmatter timestamp tags metadata existing now).get key
      = (metadata.bind fun entries => Map.get entries key).or (existing.get key) := by
  have hkept (entries : Map) : get (entries.filter fun entry => !(["tags", "updated"].contains entry.1)) key
      = get entries key := by
    refine Eq.trans (get_filter (p := fun k => !(["tags", "updated"].contains k))) ?_
    simp [hupd, htags]
  have hbase (entries fm : Map) (hfm : fm.get key = existing.get key) :
      get (fm.extend (entries.filter fun entry => !(["tags", "updated"].contains entry.1))) key
        = (get entries key).or (existing.get key) := by
    rw [get_extend, hkept, hfm]
  have hupdK : ((existing.asObject.getD []).insert "updated"
      (.string (timestamp now))).get key = existing.get key := by
    rw [get_insert_of_ne hupd, get_object]
  cases tags with
  | none =>
    cases metadata with
    | none => exact hupdK
    | some entries => exact hbase entries _ hupdK
  | some tags =>
    cases metadata with
    | none => exact (get_insert_of_ne htags).trans hupdK
    | some entries => exact hbase entries _ ((get_insert_of_ne htags).trans hupdK)

end Keys
section Owners
variable {timestamp : Int → String} {map : Map} {existing : Value} {tags : List String} {now : Int}
  {request : UpdateNoteRequest} {key owner : String}

/-- The owner in the old place. -/
def legacyOwner (value : Option Value) : Option String :=
  value.bind fun legacy => legacy.asObject.bind fun metadata =>
    ownerFromValue (metadata.get "created_by")

lemma ownerFromFrontmatter_eq {frontmatter : Value} :
    ownerFromFrontmatter frontmatter = (ownerFromValue (frontmatter.get "created_by")).or
      (legacyOwner (frontmatter.get "vault_bridge")) := rfl

lemma ownerFromFrontmatter_withoutOwner : ownerFromFrontmatter (.record (withoutOwner map)) = none := by
  rw [ownerFromFrontmatter_eq]
  have hne : "vault_bridge" ≠ "created_by" := by decide
  rw [withoutOwner]
  cases hleg : ((map.remove "created_by").get "vault_bridge").bind asObject with
  | none =>
    rw [get_remove_of_ne hne] at hleg
    simp only [Value.get, get_remove_self, get_remove_of_ne hne]
    cases hvalue : map.get "vault_bridge" with
    | none => rfl
    | some value =>
      rw [hvalue, bind_some] at hleg
      simp [legacyOwner, hleg, ownerFromValue]
  | some legacy =>
    simp only [Value.get, get_insert_self, get_insert_of_ne hne.symm, get_remove_self]
    simp [legacyOwner, asObject, ownerFromValue]

/-- An owner that is put in is found again. -/
lemma ownerFromFrontmatter_setOwner (htrim : trim owner = owner)
    (hne : owner ≠ "") : ownerFromFrontmatter (.record (setOwnerMetadata map owner)) = some owner := by
  have htop : ∀ m : Map, m.get "created_by" = some (.string owner) →
      ownerFromFrontmatter (.record m) = some owner := by
    intro m hm
    rw [ownerFromFrontmatter_eq]
    simp [Value.get, hm, ownerFromValue, Value.asStr, htrim, hne]
  have hkey : "created_by" ≠ "vault_bridge" := by decide
  apply htop
  rw [setOwnerMetadata]
  simp only [htrim, hne, if_false]
  split
  · split
    · rw [get_remove_of_ne hkey, get_insert_self]
    · rw [get_insert_of_ne hkey, get_insert_self]
  · exact get_insert_self

lemma get_setOwnerMetadata (hby : key ≠ "created_by")
    (hbr : key ≠ "vault_bridge") : (setOwnerMetadata map owner).get key = map.get key := by
  rw [setOwnerMetadata]
  dsimp only
  split
  · rfl
  split
  · split
    · rw [get_remove_of_ne hbr, get_insert_of_ne hby]
    · rw [get_insert_of_ne hbr, get_insert_of_ne hby]
  · exact get_insert_of_ne hby

lemma get_withoutOwner (hby : key ≠ "created_by") (hbr : key ≠ "vault_bridge") :
    (withoutOwner map).get key = map.get key := by
  rw [withoutOwner]
  split
  · rw [get_insert_of_ne hbr, get_remove_of_ne hby]
  · exact get_remove_of_ne hby

/-- The raw edit puts back the time of creation, and leaves what it does not write. -/
lemma get_restoreManaged (hby : key ≠ "created_by") (hbr : key ≠ "vault_bridge") :
    (restoreManaged timestamp map tags existing now).get key = if key = "created" then existing.get "created"
      else ((map.insert "tags" (tagValues tags)).insert "updated" (.string (timestamp now))).get key := by
  have hnone (m : Map) : get (m.remove "created") key = if key = "created" then none else m.get key := by
    by_cases hkey : key = "created"
    · rw [hkey, if_pos rfl, get_remove_self]
    · rw [if_neg hkey, get_remove_of_ne hkey]
  have hsome (m : Map) (created : Value) : get (m.insert "created" created) key
      = if key = "created" then some created else m.get key := by
    by_cases hkey : key = "created"
    · rw [hkey, if_pos rfl, get_insert_self]
    · rw [if_neg hkey, get_insert_of_ne hkey]
  rw [restoreManaged]
  cases ownerFromFrontmatter existing with
  | none =>
    cases existing.get "created" with
    | none => exact (get_withoutOwner hby hbr).trans (hnone _)
    | some created => exact (get_withoutOwner hby hbr).trans (hsome _ _)
  | some owner =>
    refine (get_setOwnerMetadata hby hbr).trans ((get_withoutOwner hby hbr).trans ?_)
    cases existing.get "created" with
    | none => exact hnone _
    | some created => exact hsome _ _

/-- The raw edit puts back the owner and the time of creation. -/
lemma restoreManaged_spec : ownerFromFrontmatter (.record (restoreManaged timestamp map tags existing now))
        = ownerFromFrontmatter existing ∧
      (restoreManaged timestamp map tags existing now).get "created" = existing.get "created" := by
  refine ⟨?_, get_restoreManaged (by decide) (by decide)⟩
  rw [restoreManaged]
  cases howner : ownerFromFrontmatter existing with
  | none => exact ownerFromFrontmatter_withoutOwner
  | some owner =>
    obtain ⟨htrim, hne⟩ := ownerFromFrontmatter_trimmed howner
    exact ownerFromFrontmatter_setOwner htrim hne

/-- What the metadata put in the old place, if anything, names the owner of before there. -/
def SparesOwner (request : UpdateNoteRequest) (existing : Value) : Prop :=
  (ownerFromValue (existing.get "created_by")).isSome ∨ ∀ value, metadataValue request "vault_bridge" = some value →
      legacyOwner (some value) = legacyOwner (existing.get "vault_bridge")

/-- The owner and the time of creation are those of before. -/
def KeepsOwner (old new : Value) : Prop :=
  ownerFromFrontmatter new = ownerFromFrontmatter old ∧ new.get "created" = old.get "created"

lemma KeepsOwner.trans {old middle new : Value} (h : KeepsOwner old middle)
    (h' : KeepsOwner middle new) : KeepsOwner old new :=
  ⟨h'.1.trans h.1, h'.2.trans h.2⟩

lemma requestMetadata_ok (h : requestMetadata request = .ok metadata) :
    metadata = request.metadata.bind Value.asObject := by
  rw [requestMetadata] at h
  split at h
  · rename_i hnone
    rw [hnone, ← Except.ok.inj h, bind_none]
  rename_i value hvalue
  split at h
  · cases h
  · rename_i entries hents
    rw [hvalue, ← Except.ok.inj h, bind_some, hents]

/-- The structured update keeps the owner exactly when the metadata spare it. -/
lemma keepsOwner_rebuild_iff {newTags : Option (List String)} :
    KeepsOwner existing (.record (rebuildFrontmatter timestamp newTags
        ((request.metadata.bind Value.asObject).map fun entries =>
          managedKeys.foldl Map.remove entries) existing now)) ↔ SparesOwner request existing := by
  have hmeta : ∀ key, (((request.metadata.bind asObject).map fun entries =>
      managedKeys.foldl remove entries).bind fun entries => get entries key)
      = if key ∈ managedKeys then none else metadataValue request key := by
    intro key
    rw [metadataValue]
    cases request.metadata.bind asObject with
    | none => simp
    | some entries => exact get_foldl_remove
  have hget : ∀ key, key ≠ "updated" → key ≠ "tags" → Value.get (.record (rebuildFrontmatter timestamp newTags
        ((request.metadata.bind asObject).map fun entries =>
          managedKeys.foldl remove entries) existing now)) key
        = (if key ∈ managedKeys then none else metadataValue request key).or (existing.get key) := by
    intro key hupd htags
    rw [← hmeta]
    exact get_rebuildFrontmatter hupd htags
  have hcr := hget "created" (by decide) (by decide)
  have hcreB := hget "created_by" (by decide) (by decide)
  have hbr := hget "vault_bridge" (by decide) (by decide)
  rw [if_pos (by decide), none_or] at hcr hcreB
  rw [if_neg (by decide)] at hbr
  rw [KeepsOwner, and_iff_left hcr, ownerFromFrontmatter_eq, ownerFromFrontmatter_eq, hcreB, hbr, SparesOwner]
  cases ownerFromValue (existing.get "created_by") with
  | some owner => simp
  | none =>
    cases metadataValue request "vault_bridge" with
    | none | some => simp

end Owners

section Updates
variable {w : Surroundings} {config : AuthorizationConfig} {auth : AuthContext}
variable {request : UpdateNoteRequest} {file : MarkdownFile} {note : NoteInput}
variable {tags preserveTags : List String} {now : Int} {markdown : Markdown} {source : Source}
  {raw : Bool}

lemma bind_eq_ok {ε α β : Type} {x : Except ε α} {f : α → Except ε β} {b : β}
    (h : x.bind f = .ok b) : ∃ a, x = .ok a ∧ f a = .ok b := by
  cases x with
  | error e => cases h
  | ok a => exact ⟨a, rfl, h⟩

lemma map_eq_ok {ε α β : Type} {x : Except ε α} {f : α → β} {b : β} (h : x.map f = .ok b) :
    ∃ a, x = .ok a ∧ f a = b := by
  cases x with
  | error e => cases h
  | ok a => exact ⟨a, rfl, Except.ok.inj h⟩

/-- An update that is prepared is one of the two, with the tags that a decision preserves. -/
lemma prepareUpdate_ok (h : prepareUpdate w config auth source raw file request now = .ok markdown) :
    ∃ note tags policy decision, note = noteInputFromRawMarkdown w.yaml w.inlineTags file.path file.content ∧
      tags = existingTags source note ∧ policy = policyNoteOf file note tags ∧
      policyDecisionFor w.regex config auth .edit policy now = some decision ∧
      (if raw then rawUpdate w request file note tags decision.preserveTags now
        else structuredUpdate w request note tags decision.preserveTags now) = .ok markdown := by
  rw [prepareUpdate] at h
  split at h
  · cases h
  split at h
  · cases h
  rename_i decision hdec
  split at h
  · cases h
  exact ⟨_, _, _, decision, rfl, rfl, rfl, hdec, h⟩

lemma structuredUpdate_ok (h : structuredUpdate w request note tags preserveTags now = .ok markdown) :
    ∃ body, candidateOf request note.body = .ok body ∧ markdown = {
        frontmatter := rebuildFrontmatter w.timestamp
          (request.tags.map fun named => withPreserved named preserveTags tags)
          ((request.metadata.bind Value.asObject).map fun entries =>
            managedKeys.foldl Map.remove entries) note.frontmatter now
        body := trimText body ++ ['\n'] } := by
  obtain ⟨metadata, hmeta, h⟩ := bind_eq_ok h
  obtain ⟨body, hbody, rfl⟩ := map_eq_ok h
  exact ⟨body, hbody, by rw [requestMetadata_ok hmeta]⟩

lemma rawUpdate_ok (h : rawUpdate w request file note tags preserveTags now = .ok markdown) :
    ∃ candidate map, candidateOf request file.content = .ok candidate ∧
      (parseFrontmatter w.yaml candidate).1.asObject ≠ none ∧
      (∀ key, managedKeys.contains key ∨ metadataValue request key = none →
        map.get key = (parseFrontmatter w.yaml candidate).1.get key) ∧ markdown = {
        frontmatter := restoreManaged w.timestamp map
          (withPreserved (request.tags.getD (extractFrontmatterTags (.record map))) preserveTags tags)
          note.frontmatter now
        body := if trimText (parseFrontmatter w.yaml candidate).2 = [] then []
          else trimText (parseFrontmatter w.yaml candidate).2 ++ ['\n'] } := by
  obtain ⟨candidate, hcand, h⟩ := bind_eq_ok h
  dsimp only at h
  split at h
  · cases h
  rename_i base hbase
  obtain ⟨metadata, hmeta, rfl⟩ := map_eq_ok h
  refine ⟨candidate, candidateMap base metadata, hcand, hbase ▸ Option.some_ne_none _, fun key hkey => ?_, rfl⟩
  have hvalue : base.get key = (parseFrontmatter w.yaml candidate).1.get key := by
    rw [← get_object, hbase, getD_some]
  rw [metadataValue, ← requestMetadata_ok hmeta] at hkey
  cases metadata with
  | none => exact hvalue
  | some entries =>
    have hfilt : get (entries.filter fun entry => !managedKeys.contains entry.1) key = none := by
      refine Eq.trans (get_filter (p := fun k => !managedKeys.contains k)) ?_
      rcases hkey with hman | hnone
      · rw [hman, Bool.not_true, if_neg Bool.false_ne_true]
      · rw [show get entries key = none from hnone, ite_self]
    rw [candidateMap, get_extend, hfilt, none_or]
    exact hvalue

/-- A prepared update keeps the owner exactly when it is a raw edit or spares the owner. -/
lemma keepsOwner_prepareUpdate_iff (h : prepareUpdate w config auth source raw file request now = .ok markdown)
    (hyaml : w.yaml.RoundTrips markdown.frontmatter) : KeepsOwner (parseFrontmatter w.yaml file.content).1
        (parseFrontmatter w.yaml (markdown.text w.yaml)).1 ↔
      raw ∨ SparesOwner request (parseFrontmatter w.yaml file.content).1 := by
  obtain ⟨note, tags, policy, decision, rfl, -, -, -, hupd⟩ := prepareUpdate_ok h
  rw [parseFrontmatter_text hyaml]
  cases raw with
  | true =>
    obtain ⟨candidate, map, -, -, -, rfl⟩ := rawUpdate_ok hupd
    simp only [true_or, iff_true]
    exact restoreManaged_spec
  | false =>
    obtain ⟨body, -, rfl⟩ := structuredUpdate_ok hupd
    simp only [Bool.false_eq_true, false_or]
    exact keepsOwner_rebuild_iff

/-- Updates one after the other, of which each spares the owner or is a raw edit. -/
inductive SparingRun (w : Surroundings) (file : MarkdownFile) : MarkdownFile → Prop
  | refl : SparingRun w file file
  | step {middle : MarkdownFile} {config : AuthorizationConfig} {auth : AuthContext} {source : Source}
      {raw : Bool} {request : UpdateNoteRequest} {now : Int} {markdown : Markdown}
      (run : SparingRun w file middle)
      (hprepared : prepareUpdate w config auth source raw middle request now = .ok markdown)
      (hyaml : w.yaml.RoundTrips markdown.frontmatter)
      (hspares : raw = true ∨ SparesOwner request (parseFrontmatter w.yaml middle.content).1) :
      SparingRun w file { middle with content := markdown.text w.yaml, updatedAt := now }

lemma SparingRun.keepsOwner {file' : MarkdownFile} (h : SparingRun w file file') :
    KeepsOwner (parseFrontmatter w.yaml file.content).1 (parseFrontmatter w.yaml file'.content).1 := by
  induction h with
  | refl => exact ⟨rfl, rfl⟩
  | step run hprep hyaml hspar ih =>
    exact ih.trans ((keepsOwner_prepareUpdate_iff hprep hyaml).mpr hspar)

/-- Each update keeps the owner and the time of creation exactly when it is a raw edit or spares the
owner, and so does every run of such updates. -/
theorem updates_keep_owner (w : Surroundings) :
    (∀ (config : AuthorizationConfig) (auth : AuthContext) (source : Source) (raw : Bool)
      (file : MarkdownFile) (request : UpdateNoteRequest) (now : Int) (markdown : Markdown),
      prepareUpdate w config auth source raw file request now = .ok markdown →
      w.yaml.RoundTrips markdown.frontmatter → (KeepsOwner (parseFrontmatter w.yaml file.content).1
          (parseFrontmatter w.yaml (markdown.text w.yaml)).1 ↔
        raw = true ∨ SparesOwner request (parseFrontmatter w.yaml file.content).1)) ∧
    ∀ file file', SparingRun w file file' →
      KeepsOwner (parseFrontmatter w.yaml file.content).1 (parseFrontmatter w.yaml file'.content).1 :=
  ⟨fun _ _ _ _ _ _ _ _ h hyaml => keepsOwner_prepareUpdate_iff h hyaml, fun _ _ h => h.keepsOwner⟩

def claimedText : Text := "updated: now\nvault_bridge:\n  created_by: me".toList

def claimedMap : Map :=
  [("updated", .string "now"), ("vault_bridge", .record [("created_by", .string "me")])]

def ownedText : Text := "created_by: you\nupdated: now\nvault_bridge:\n  created_by: me".toList

def ownedMap : Map := ("created_by", .string "you") :: claimedMap

/-- The front matters that occur, a note without one and a note with an owner being updated. -/
def claimYaml : Yaml where
  print := fun m => if (m.get "created_by").isSome then ownedText else claimedText
  parse := fun text =>
    if text = claimedText then some (.record claimedMap)
    else if text = ownedText then some (.record ownedMap)
    else if text = "created_by: you".toList then some (.record [("created_by", .string "you")])
    else none

def claimSurroundings : Surroundings where
  yaml := claimYaml
  inlineTags := fun _ => []
  timestamp := fun _ => "now"
  wholeFileRevision := fun _ => "v1"
  regex := fun _ => none

def everyone : AccessRule := { allow := some { default := some true } }

def openConfig : AuthorizationConfig :=
  [("agent", { read := [everyone], create := [], edit := [everyone] })]

def plainNote : MarkdownFile where
  path := "a.md"
  content := "hello\n".toList
  createdAt := none
  updatedAt := 0

def ownedNote : MarkdownFile :=
  { plainNote with content := "---\ncreated_by: you\n---\n\nhello\n".toList }

def claimRequest : UpdateNoteRequest where
  metadata := some (.record [("vault_bridge", .record [("created_by", .string "me")])])
  expectedRevision := some "v1"

lemma prepareUpdate_plain (source : Source) :
    prepareUpdate claimSurroundings openConfig ⟨"agent", "me"⟩ source false plainNote claimRequest 1
      = .ok ⟨claimedMap, "hello\n".toList⟩ := by
  cases source <;> rfl

lemma prepareUpdate_owned (source : Source) :
    prepareUpdate claimSurroundings openConfig ⟨"agent", "me"⟩ source false ownedNote claimRequest 1
      = .ok ⟨ownedMap, "hello\n".toList⟩ := by
  cases source <;> rfl

lemma roundTrips_claimed : claimYaml.RoundTrips claimedMap :=
  ⟨rfl, by decide +kernel, by decide +kernel⟩

lemma roundTrips_owned : claimYaml.RoundTrips ownedMap :=
  ⟨rfl, by decide +kernel, by decide +kernel⟩

/-- A note with an owner keeps it. -/
theorem owned_note_keeps_owner : KeepsOwner (parseFrontmatter claimYaml ownedNote.content).1
      (parseFrontmatter claimYaml (Markdown.text claimYaml ⟨ownedMap, "hello\n".toList⟩)).1 := by
  have hspar : SparesOwner claimRequest (parseFrontmatter claimYaml ownedNote.content).1 :=
    Or.inl rfl
  exact (updates_keep_owner claimSurroundings).2 ownedNote _
    (.step .refl (prepareUpdate_owned .file) roundTrips_owned (Or.inr hspar))

/-- Whoever may edit a note without an owner can make it theirs. -/
theorem plain_note_claimed :
    ¬ ∀ (w : Surroundings) (config : AuthorizationConfig) (auth : AuthContext) (source : Source)
      (raw : Bool) (file : MarkdownFile) (request : UpdateNoteRequest) (now : Int) (markdown : Markdown),
      prepareUpdate w config auth source raw file request now = .ok markdown →
      w.yaml.RoundTrips markdown.frontmatter →
      ownerFromFrontmatter (parseFrontmatter w.yaml (markdown.text w.yaml)).1
        = ownerFromFrontmatter (parseFrontmatter w.yaml file.content).1 := by
  intro hclaim
  have hkept := hclaim claimSurroundings openConfig ⟨"agent", "me"⟩ .index false plainNote
    claimRequest 1 _ (prepareUpdate_plain .index) roundTrips_claimed
  have hnew : ownerFromFrontmatter (parseFrontmatter claimYaml
      (Markdown.text claimYaml ⟨claimedMap, "hello\n".toList⟩)).1 = some "me" := by
    decide
  have hold : ownerFromFrontmatter (parseFrontmatter claimYaml plainNote.content).1 = none := by
    decide
  exact absurd (hnew.symm.trans (hkept.trans hold)) (by decide)

end Updates

end NoteUpdates
