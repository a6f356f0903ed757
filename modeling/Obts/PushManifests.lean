import Obts.JsonRecords
import Obts.Metadata
import Obts.PathPolicy

/-!
# Push manifests

The shared validators of push manifests and of transfer creation requests, with the records that
`JSON.stringify` writes for what they return. A validated manifest passes its own validator and
comes back unchanged; the directory intents need that compaction is idempotent and that a
normalized path is its own normal form.
-/
namespace PushManifests

open ForestEdits InsertionOrder JsonRecords PathPolicy SlashPath DirectoryIntents List Json
open Metadata (bind_eq_ok RenamePair)

structure ValidationError where
  (code message : String)
  field : Option String
  deriving DecidableEq

abbrev Fields := List (String × Json)

def invalidRequest (message : String) (field : Option String) : ValidationError :=
  ⟨"invalid_request", message, field⟩

def assertRecord : Json → Except ValidationError Fields
  | .record fields => .ok fields
  | _ => .error (invalidRequest "Expected a JSON object." none)

variable (fields : Fields) (field : String)

def readString : Except ValidationError String :=
  match (valueAt fields field).bind Json.asString with
  | some value =>
    if value = "" then .error (invalidRequest s!"Missing or invalid field: {field}." field)
    else .ok value
  | none => .error (invalidRequest s!"Missing or invalid field: {field}." field)

def readOptionalString : Except ValidationError (Option String) :=
  match valueAt fields field with
  | none => .ok none
  | some (.string value) =>
    if value = "" then .error (invalidRequest s!"Invalid field: {field}." field)
    else .ok (some value)
  | some _ => .error (invalidRequest s!"Invalid field: {field}." field)

def readNullableString : Except ValidationError (Option String) :=
  match valueAt fields field with
  | none => .error (invalidRequest s!"Missing field: {field}." field)
  | some .null => .ok none
  | some (.string value) => if value = "" then .ok none else .ok (some value)
  | some _ => .error (invalidRequest s!"Invalid field: {field}." field)

def readNonNegativeInteger : Except ValidationError Nat :=
  match valueAt fields field with
  | some (.number (some (.ofNat n))) => .ok n
  | some (.number (some _)) => .error (invalidRequest s!"Invalid field: {field}." field)
  | some (.number none) => .error (invalidRequest s!"Invalid field: {field}." field)
  | _ => .error (invalidRequest s!"Missing or invalid field: {field}." field)

def isLowerHex (c : Char) : Bool :=
  (48 ≤ c.toNat && c.toNat ≤ 57) || (97 ≤ c.toNat && c.toNat ≤ 102)

def isDigit (c : Char) : Bool := 48 ≤ c.toNat && c.toNat ≤ 57

/-- Between `low` and `high` characters, all of one class. -/
def matchesClass (cls : Char → Bool) (low high : Nat) (text : List Char) : Bool :=
  low ≤ text.length && text.length ≤ high && text.all cls

def isCommitId (text : String) : Bool := matchesClass isLowerHex 40 40 text.toList

def isSha256 (text : String) : Bool := matchesClass isLowerHex 64 64 text.toList

def readCommitId : Except ValidationError String := do
  let value ← readString fields field
  if isCommitId value then .ok value
  else .error (invalidRequest s!"Invalid commit ID: {field}." field)

def readNullableCommitId : Except ValidationError (Option String) := do
  let value ← readNullableString fields field
  if value.all isCommitId then .ok value
  else .error (invalidRequest s!"Invalid commit ID: {field}." field)

/-- A commit or null when the record has the field at all. -/
def readOptionalCommitId : Except ValidationError (Option (Option String)) :=
  if (valueAt fields field).isSome then (readNullableCommitId fields field).map some
  else .ok none

def readSha256 : Except ValidationError String := do
  let value ← readString fields field
  if isSha256 value then .ok value
  else .error (invalidRequest s!"Invalid SHA-256 digest: {field}." field)

variable {value baseMain : Option String}

section Reading

variable {fields fields' : Fields} {field : String}

lemma readString_eq_ok {value : String} (h : readString fields field = .ok value) : value ≠ "" := by
  unfold readString at h
  split at h
  · split at h
    · cases h
    rename_i hne
    cases h
    exact hne
  · cases h

lemma readString_string {value : String} (hvalue : value ≠ "")
    (h : valueAt fields field = some (.string value)) : readString fields field = .ok value := by
  simp [readString, h, Json.asString, hvalue]

lemma readNullableString_eq_ok (h : readNullableString fields field = .ok value) : value ≠ some "" := by
  unfold readNullableString at h
  split at h
  · cases h
  · cases h
    simp
  · split at h
    · cases h
      simp
    rename_i hne
    cases h
    simpa using hne
  · cases h

lemma readNullableString_ofOption (hvalue : value ≠ some "")
    (h : valueAt fields field = some (Json.ofOption .string value)) :
    readNullableString fields field = .ok value := by
  cases value with
  | none => simp [readNullableString, h, ofOption]
  | some text =>
    have hne : text ≠ "" := fun heq => hvalue (congrArg some heq)
    simp [readNullableString, h, ofOption, hne]

lemma readOptionalString_again (h : readOptionalString fields field = .ok value)
    (hfield : valueAt fields' field = value.map .string) : readOptionalString fields' field = .ok value := by
  unfold readOptionalString at h
  split at h
  · cases h
    simp [readOptionalString, hfield]
  · split at h
    · cases h
    rename_i hne
    cases h
    simp [readOptionalString, hfield, hne]
  · cases h

lemma readCommitId_eq_ok {value : String} (h : readCommitId fields field = .ok value) :
    value ≠ "" ∧ isCommitId value := by
  obtain ⟨_, hread, h⟩ := bind_eq_ok.mp h
  split at h
  · rename_i hcmt
    cases h
    exact ⟨readString_eq_ok hread, hcmt⟩
  · cases h

lemma readCommitId_string {value : String} (hvalue : isCommitId value)
    (h : valueAt fields field = some (.string value)) : readCommitId fields field = .ok value := by
  have hne : value ≠ "" := by
    rintro rfl
    exact absurd hvalue (by decide)
  rw [readCommitId, readString_string hne h]
  simp [bind, Except.bind, hvalue]

lemma readSha256_string {value : String} (hvalue : isSha256 value)
    (h : valueAt fields field = some (.string value)) : readSha256 fields field = .ok value := by
  have hne : value ≠ "" := by
    rintro rfl
    exact absurd hvalue (by decide)
  rw [readSha256, readString_string hne h]
  simp [bind, Except.bind, hvalue]

lemma readSha256_eq_ok {value : String} (h : readSha256 fields field = .ok value) : isSha256 value := by
  obtain ⟨_, hread, h⟩ := bind_eq_ok.mp h
  split at h
  · rename_i hsha
    cases h
    exact hsha
  · cases h

lemma readNullableCommitId_eq_ok (h : readNullableCommitId fields field = .ok value) :
    value ≠ some "" ∧ value.all isCommitId := by
  obtain ⟨_, hread, h⟩ := bind_eq_ok.mp h
  split at h
  · rename_i hcmt
    cases h
    exact ⟨readNullableString_eq_ok hread, hcmt⟩
  · cases h

lemma readNullableCommitId_ofOption (hvalue : value ≠ some "" ∧ value.all isCommitId)
    (h : valueAt fields field = some (Json.ofOption .string value)) :
    readNullableCommitId fields field = .ok value := by
  rw [readNullableCommitId, readNullableString_ofOption hvalue.1 h]
  simp [bind, Except.bind, hvalue.2]

lemma readOptionalCommitId_again {value : Option (Option String)}
    (h : readOptionalCommitId fields field = .ok value)
    (hfield : valueAt fields' field = value.map (Json.ofOption .string)) :
    readOptionalCommitId fields' field = .ok value := by
  unfold readOptionalCommitId at h
  split at h
  · cases hread : readNullableCommitId fields field with
    | error e =>
      rw [hread] at h
      cases h
    | ok commit =>
      rw [hread] at h
      cases h
      have hagain : readNullableCommitId fields' field = .ok commit :=
        readNullableCommitId_ofOption (readNullableCommitId_eq_ok hread) (by simpa using hfield)
      simp [readOptionalCommitId, hfield, hagain, Except.map]
  · cases h
    simp [readOptionalCommitId, hfield]

end Reading

def pairToJson (pair : RenamePair) : Json :=
  record [("source_path", some (.string pair.sourcePath)),
    ("destination_path", some (.string pair.destinationPath))]

variable (u : Normalization)

def readCanonicalSyncPath (fields : Fields) (field : String) : Except ValidationError String := do
  let input ← readString fields field
  if normalizeVaultPath u input = .ok ⟨input⟩ ∧ isSyncableVaultPath u input then .ok input
  else .error (invalidRequest "Rename endpoint must be a canonical sync path." field)

/-- The fields in code unit order, joined by commas. -/
def sortedKeys (fields : Fields) : List Char :=
  [','].intercalate ((sort (fields.map fun entry => ⟨entry.1⟩)).map fun key : Path => key.text.toList)

/-- The endpoints of the pair, checked against the earlier endpoints one after the other. -/
def addEndpoint (endpoints : List Path) (path : Path) : Except ValidationError (List Path) :=
  if endpoints.any (pathsOverlap path) then
    .error (invalidRequest "Rename pair footprints overlap." "rename_pairs")
  else .ok (add endpoints path)

def readRenamePair (previous : Option Path) (endpoints : List Path)
    (item : Json) : Except ValidationError (RenamePair × Path × List Path) := do
  let fields ← assertRecord item
  if sortedKeys fields ≠ "destination_path,source_path".toList then
    .error (invalidRequest "Rename pair has unsupported fields." "rename_pairs")
  let sourcePath ← readCanonicalSyncPath u fields "source_path"
  let destinationPath ← readCanonicalSyncPath u fields "destination_path"
  if sourcePath = destinationPath then
    .error (invalidRequest "Rename endpoints must differ." "rename_pairs")
  let key : Path := ⟨sourcePath ++ "\x00" ++ destinationPath⟩
  if previous.any fun previous => (compare key.codeUnits previous.codeUnits).isLE then
    .error (invalidRequest "Rename pairs must be uniquely sorted." "rename_pairs")
  let endpoints ← addEndpoint endpoints ⟨sourcePath⟩
  let endpoints ← addEndpoint endpoints ⟨destinationPath⟩
  .ok (⟨sourcePath, destinationPath⟩, key, endpoints)

/-- The loop over the pairs; no previous key stands for the empty one. -/
def readRenamePairs (u : Normalization) (previous : Option Path) (endpoints : List Path) :
    List Json → Except ValidationError (List RenamePair)
  | [] => .ok []
  | item :: items => do
    let (pair, key, endpoints) ← readRenamePair u previous endpoints item
    let pairs ← readRenamePairs u (some key) endpoints items
    .ok (pair :: pairs)

def readOptionalRenamePairs (fields : Fields) : Except ValidationError (Option (List RenamePair)) :=
  match valueAt fields "rename_pairs" with
  | none => .ok none
  | some (.array items) =>
    if items.length = 0 ∨ items.length > 5000 then
      .error (invalidRequest "Invalid rename pairs." "rename_pairs")
    else (readRenamePairs u none [] items).map some
  | some _ => .error (invalidRequest "Invalid rename pairs." "rename_pairs")

variable {fields fields' : Fields} {items : List Json} {field : String} {item : Json}

section RenamePairs

variable {u : Normalization} {previous : Option Path} {endpoints : List Path} {value : String}

lemma readCanonicalSyncPath_eq_ok (h : readCanonicalSyncPath u fields field = .ok value) :
    value ≠ "" ∧ normalizeVaultPath u value = .ok ⟨value⟩ ∧ isSyncableVaultPath u value := by
  obtain ⟨_, hread, h⟩ := bind_eq_ok.mp h
  split at h
  · rename_i hpath
    cases h
    exact ⟨readString_eq_ok hread, hpath⟩
  · cases h

lemma readCanonicalSyncPath_string
    (hvalue : value ≠ "" ∧ normalizeVaultPath u value = .ok ⟨value⟩ ∧ isSyncableVaultPath u value)
    (h : valueAt fields field = some (.string value)) : readCanonicalSyncPath u fields field = .ok value := by
  rw [readCanonicalSyncPath, readString_string hvalue.1 h]
  simp [bind, Except.bind, hvalue.2]

lemma readRenamePair_again {out : RenamePair × Path × List Path}
    (h : readRenamePair u previous endpoints item = .ok out) :
    readRenamePair u previous endpoints (pairToJson out.1) = .ok out := by
  obtain ⟨fields, -, h⟩ := bind_eq_ok.mp h
  split at h
  · cases h
  obtain ⟨source, hsrc, h⟩ := bind_eq_ok.mp h
  obtain ⟨destination, hdst, h⟩ := bind_eq_ok.mp h
  split at h
  · cases h
  rename_i hdiff
  dsimp only at h
  split at h
  · cases h
  rename_i hsort
  obtain ⟨first, hfirst, h⟩ := bind_eq_ok.mp h
  obtain ⟨second, hsnd, h⟩ := bind_eq_ok.mp h
  cases h
  have hkeys : ∀ value value' : Json, sortedKeys [("source_path", value), ("destination_path", value')]
        = "destination_path,source_path".toList := by
    intro value value'
    simp only [sortedKeys, map_cons, map_nil]
    decide +kernel
  have hsrc' := readCanonicalSyncPath_eq_ok hsrc
  have hdst' := readCanonicalSyncPath_eq_ok hdst
  have hreaS : readCanonicalSyncPath u [("source_path", .string source),
      ("destination_path", .string destination)] "source_path" = .ok source :=
    readCanonicalSyncPath_string hsrc' rfl
  have hreaD : readCanonicalSyncPath u [("source_path", .string source),
      ("destination_path", .string destination)] "destination_path" = .ok destination :=
    readCanonicalSyncPath_string hdst' rfl
  have hfld : pairToJson ⟨source, destination⟩ = .record [("source_path",
      .string source), ("destination_path", .string destination)] := rfl
  simp only [readRenamePair, hfld, assertRecord, bind, Except.bind, hkeys, ne_eq,
    not_true_eq_false, if_false, hreaS, hreaD, hdiff, hsort]
  simp only [hfirst, hsnd]
  simp

lemma readRenamePairs_again {pairs : List RenamePair} (h : readRenamePairs u previous endpoints items = .ok pairs) :
    readRenamePairs u previous endpoints (pairs.map pairToJson) = .ok pairs ∧ pairs.length = items.length := by
  induction items generalizing previous endpoints pairs with
  | nil =>
    cases h
    exact ⟨rfl, rfl⟩
  | cons item items ih =>
    obtain ⟨⟨pair, key, next⟩, hpair, h⟩ := bind_eq_ok.mp h
    obtain ⟨rest, hrest, h⟩ := bind_eq_ok.mp h
    cases h
    obtain ⟨hagain, hlen⟩ := ih hrest
    constructor
    · have hfirst := readRenamePair_again hpair
      simp [readRenamePairs, hfirst, bind, Except.bind, hagain]
    · simp [hlen]

lemma readOptionalRenamePairs_again {pairs : Option (List RenamePair)}
    (h : readOptionalRenamePairs u fields = .ok pairs) (hfield : valueAt fields' "rename_pairs"
      = pairs.map fun pairs => .array (pairs.map pairToJson)) : readOptionalRenamePairs u fields' = .ok pairs := by
  unfold readOptionalRenamePairs at h
  split at h
  · cases h
    simp [readOptionalRenamePairs, hfield]
  · rename_i items _
    split at h
    · cases h
    rename_i hbnd
    cases hread : readRenamePairs u none [] items with
    | error e =>
      rw [hread] at h
      cases h
    | ok read =>
      rw [hread] at h
      cases h
      obtain ⟨hagain, hlen⟩ := readRenamePairs_again hread
      have hbnd' : ¬ (read.length = 0 ∨ read.length > 5000) := by
        rwa [hlen]
      simp only [readOptionalRenamePairs, hfield, Option.map_some, length_map, if_neg hbnd', hagain]
      rfl
  · cases h

end RenamePairs

def readOp (fields : Fields) : Except ValidationError EditOp := do
  let op ← readString fields "op"
  if op = "create" then .ok .create
  else if op = "delete" then .ok .delete
  else .error (invalidRequest "Invalid directory intent operation." "op")

def readIntentPath (u : Normalization) (fields : Fields) : Except ValidationError Path := do
  let input ← readString fields "path"
  match normalizeVaultPath u input with
  | .ok path =>
    if isSyncableVaultPath u path.text then .ok path
    else .error (invalidRequest "Invalid directory intent path." "path")
  | .error _ => .error (invalidRequest "Invalid directory intent path." "path")

def readDirectoryIntent (u : Normalization) (item : Json) : Except ValidationError DirectoryIntent := do
  let fields ← assertRecord item
  let op ← readOp fields
  let path ← readIntentPath u fields
  .ok ⟨op, path⟩

def intentToJson (intent : DirectoryIntent) : Json :=
  record [("op", some (.string (opName intent.op))), ("path", some (.string intent.path.text))]

def readOptionalDirectoryIntents (c : Collation) (u : Normalization) (fields : Fields)
    (field : String) : Except ValidationError (Option (List DirectoryIntent)) :=
  match valueAt fields field with
  | none => .ok none
  | some (.array items) =>
    if items.length > 5000 then
      .error (invalidRequest s!"Too many directory intents: {field}." field)
    else (items.mapM (readDirectoryIntent u)).map fun intents =>
      some (compactDirectoryIntents c intents)
  | some _ => .error (invalidRequest s!"Invalid field: {field}." field)

section DirectoryIntents

variable {c : Collation} {u : Normalization} {path : Path} {α : Type}

lemma readOp_opName (op : EditOp)
    (h : valueAt fields "op" = some (.string (opName op))) : readOp fields = .ok op := by
  cases op with
  | create | delete =>
    rw [readOp, readString_string (by decide) h]
    rfl

lemma readIntentPath_eq_ok (h : readIntentPath u fields = .ok path) :
    path.text ≠ "" ∧ normalizeVaultPath u path.text = .ok path ∧ isSyncableVaultPath u path.text := by
  obtain ⟨input, -, h⟩ := bind_eq_ok.mp h
  split at h
  · rename_i found hnorm
    split at h
    · rename_i hsync
      cases h
      have hagain := normalizeVaultPath_text hnorm
      refine ⟨?_, hagain, hsync⟩
      intro hempty
      simp [normalizeVaultPath, hempty] at hagain
    · cases h
  · cases h

lemma readIntentPath_text (hpath : path.text ≠ "" ∧ normalizeVaultPath u path.text = .ok path
      ∧ isSyncableVaultPath u path.text) (h : valueAt fields "path" = some (.string path.text)) :
    readIntentPath u fields = .ok path := by
  rw [readIntentPath, readString_string hpath.1 h]
  simp [bind, Except.bind, hpath.2]

lemma readDirectoryIntent_again {intent : DirectoryIntent} (h : readDirectoryIntent u item = .ok intent) :
    readDirectoryIntent u (intentToJson intent) = .ok intent := by
  obtain ⟨fields, -, h⟩ := bind_eq_ok.mp h
  obtain ⟨op, -, h⟩ := bind_eq_ok.mp h
  obtain ⟨path, hpath, h⟩ := bind_eq_ok.mp h
  cases h
  have hfld : intentToJson ⟨op, path⟩ = .record [("op", .string (opName op)), ("path", .string path.text)] := rfl
  have hop : readOp [("op", .string (opName op)), ("path", .string path.text)] = .ok op :=
    readOp_opName op rfl
  have hagain : readIntentPath u [("op", .string (opName op)), ("path", .string path.text)]
      = .ok path := readIntentPath_text (readIntentPath_eq_ok hpath) rfl
  simp [readDirectoryIntent, hfld, assertRecord, bind, Except.bind, hop, hagain]

/-- Reading again what a validator returned, element by element. -/
lemma mapM_again {read : Json → Except ValidationError α} {write : α → Json}
    (hread : ∀ item a, read item = .ok a → read (write a) = .ok a) {as : List α} (h : items.mapM read = .ok as) :
    (∀ a ∈ as, read (write a) = .ok a) ∧ as.length = items.length := by
  induction items generalizing as with
  | nil =>
    cases h
    exact ⟨by simp, rfl⟩
  | cons item items ih =>
    rw [mapM_cons] at h
    obtain ⟨a, ha, h⟩ := bind_eq_ok.mp h
    obtain ⟨rest, hrest, h⟩ := bind_eq_ok.mp h
    cases h
    obtain ⟨hagain, hlen⟩ := ih hrest
    exact ⟨forall_mem_cons.mpr ⟨hread item a ha, hagain⟩, by simp [hlen]⟩

lemma mapM_map_of_forall {read : Json → Except ValidationError α} {write : α → Json}
    {as : List α} (h : ∀ a ∈ as, read (write a) = .ok a) : (as.map write).mapM read = .ok as := by
  induction as with
  | nil => rfl
  | cons a as ih =>
    obtain ⟨ha, has⟩ := forall_mem_cons.mp h
    simp only [map_cons, mapM_cons, ha, ih has]
    rfl

lemma readOptionalDirectoryIntents_again {intents : Option (List DirectoryIntent)}
    (h : readOptionalDirectoryIntents c u fields field = .ok intents)
    (hfield : valueAt fields' field = intents.map fun intents => .array (intents.map intentToJson)) :
    readOptionalDirectoryIntents c u fields' field = .ok intents := by
  unfold readOptionalDirectoryIntents at h
  split at h
  · cases h
    simp [readOptionalDirectoryIntents, hfield]
  · rename_i items _
    split at h
    · cases h
    rename_i hbound
    cases hread : items.mapM (readDirectoryIntent u) with
    | error e =>
      rw [hread] at h
      cases h
    | ok read =>
      rw [hread] at h
      cases h
      obtain ⟨hagain, hlen⟩ := mapM_again (fun _ _ => readDirectoryIntent_again) hread
      have hcomp : ((compactDirectoryIntents c read).map intentToJson).mapM
          (readDirectoryIntent u) = .ok (compactDirectoryIntents c read) :=
        mapM_map_of_forall fun intent hintent =>
          hagain intent (mem_of_mem_compactDirectoryIntents hintent)
      have hbound' : ¬ (compactDirectoryIntents c read).length > 5000 := by
        have hle := length_compactDirectoryIntents_le c read
        omega
      simp [readOptionalDirectoryIntents, hfield, if_neg hbound', hcomp, Except.map, compactDirectoryIntents_compact]
  · cases h

lemma readOptionalDirectoryIntents_length {intents : List DirectoryIntent}
    (h : readOptionalDirectoryIntents c u fields field = .ok (some intents)) : intents.length ≤ 5000 := by
  unfold readOptionalDirectoryIntents at h
  split at h
  · cases h
  · split at h
    · cases h
    rename_i items _ hbound
    cases hread : items.mapM (readDirectoryIntent u) with
    | error e =>
      rw [hread] at h
      cases h
    | ok read =>
      rw [hread] at h
      cases h
      have hlen := (mapM_again (fun _ _ => readDirectoryIntent_again) hread).2
      have hle := length_compactDirectoryIntents_le c read
      omega
  · cases h

end DirectoryIntents

structure ProposalIntent where
  op : EditOp
  path : Path
  intentId : String
  generation : Nat
  provenance : Metadata.Provenance
  baseMain : Option String
  baseEventSeq : Nat
  replacesIntentId : Option String
  recreatedAfterDelete : Bool
  createdAt : Option String

structure Proposal where
  proposalId : String
  baseMain : Option String
  baseEventSeq : Nat
  intents : List ProposalIntent

def provenanceName : Metadata.Provenance → String
  | .legacy => "legacy"
  | .localV2 => "local_v2"

def ProposalIntent.toJson (intent : ProposalIntent) : Json :=
  record [("op", some (.string (opName intent.op))), ("path", some (.string intent.path.text)),
    ("intent_id", some (.string intent.intentId)), ("generation", some (.number (some intent.generation))),
    ("provenance", some (.string (provenanceName intent.provenance))),
    ("base_main", some (.ofOption .string intent.baseMain)),
    ("base_event_seq", some (.number (some intent.baseEventSeq))),
    ("replaces_intent_id", some (.ofOption .string intent.replacesIntentId)),
    ("recreated_after_delete", some (.boolean intent.recreatedAfterDelete)),
    ("created_at", some (.ofOption .string intent.createdAt))]

def Proposal.toJson (proposal : Proposal) : Json :=
  record [("schema_version", some (.number (some 2))), ("proposal_id", some (.string proposal.proposalId)),
    ("base_main", some (.ofOption .string proposal.baseMain)),
    ("base_event_seq", some (.number (some proposal.baseEventSeq))),
    ("intents", some (.array (proposal.intents.map ProposalIntent.toJson)))]

def isProposalId (text : String) : Bool :=
  "dirprop_".toList.isPrefixOf text.toList && matchesClass isLowerHex 64 64 (text.toList.drop 8)

/-- The pattern of intent ids: a local id with two counters, or a legacy id. -/
def isIntentId (text : String) : Bool :=
  match text.toList.splitOn '_' with
  | [kind, hex] => kind = "legacy".toList && matchesClass isLowerHex 24 24 hex
  | [kind, time, count, hex] =>
    kind = "dir".toList && (time ≠ [] && time.all isDigit) && (count ≠ [] && count.all isDigit) &&
      matchesClass isLowerHex 12 12 hex
  | _ => false

def readProvenance (fields : Fields) : Except ValidationError Metadata.Provenance := do
  let provenance ← readString fields "provenance"
  if provenance = "legacy" then .ok .legacy
  else if provenance = "local_v2" then .ok .localV2
  else .error (invalidRequest "Invalid directory intent provenance." "provenance")

def readReplacesIntentId (fields : Fields) : Except ValidationError (Option String) :=
  match valueAt fields "replaces_intent_id" with
  | some .null => .ok none
  | _ => (readString fields "replaces_intent_id").map some

def readProvenanceFields (fields : Fields) : Except ValidationError (Bool × Option String) :=
  match valueAt fields "recreated_after_delete", valueAt fields "created_at" with
  | some (.boolean recreated), some .null => .ok (recreated, none)
  | some (.boolean recreated), some (.string createdAt) => .ok (recreated, some createdAt)
  | _, _ => .error (invalidRequest "Invalid directory intent provenance fields." none)

def readProposalIntent (baseMain : Option String) (baseEventSeq : Nat)
    (item : Json) : Except ValidationError ProposalIntent := do
  let fields ← assertRecord item
  let op ← readOp fields
  let path ← readIntentPath u fields
  let intentId ← readString fields "intent_id"
  if ¬ isIntentId intentId then
    .error (invalidRequest "Invalid directory intent ID." "intent_id")
  let generation ← readNonNegativeInteger fields "generation"
  let provenance ← readProvenance fields
  let intentBaseMain ← readNullableCommitId fields "base_main"
  let intentBaseEventSeq ← readNonNegativeInteger fields "base_event_seq"
  let replacesIntentId ← readReplacesIntentId fields
  let (recreatedAfterDelete, createdAt) ← readProvenanceFields fields
  if intentBaseMain ≠ baseMain ∨ intentBaseEventSeq ≠ baseEventSeq then
    .error (invalidRequest "Directory intent base does not match its proposal." none)
  .ok {
    op, path, intentId, generation, provenance
    baseMain := intentBaseMain
    baseEventSeq := intentBaseEventSeq
    replacesIntentId, recreatedAfterDelete, createdAt }

/-- The loop over the intents; identities are pairs of an id and a generation. -/
def readProposalIntents (u : Normalization) (baseMain : Option String) (baseEventSeq : Nat)
    (identities : List (String × Nat)) : List Json → Except ValidationError (List ProposalIntent)
  | [] => .ok []
  | item :: items => do
    let intent ← readProposalIntent u baseMain baseEventSeq item
    if (intent.intentId, intent.generation) ∈ identities then
      .error (invalidRequest "Directory proposal contains duplicate intent generations." none)
    let identities := add identities (intent.intentId, intent.generation)
    let intents ← readProposalIntents u baseMain baseEventSeq identities items
    .ok (intent :: intents)

variable (fields)

def readSchemaVersion : Except ValidationError Unit :=
  match valueAt fields "schema_version" with
  | some (.number (some 2)) => .ok ()
  | _ => .error (invalidRequest "Unsupported directory proposal schema." "schema_version")

/-- The field of intents: an array that is neither empty nor too long. -/
def readIntentItems : Except ValidationError (List Json) :=
  match valueAt fields "intents" with
  | some (.array items) =>
    if items.length = 0 ∨ items.length > 5000 then
      .error (invalidRequest "Invalid directory proposal intents." "intents")
    else .ok items
  | _ => .error (invalidRequest "Invalid directory proposal intents." "intents")

def readProposal : Except ValidationError Proposal := do
  readSchemaVersion fields
  let proposalId ← readString fields "proposal_id"
  if ¬ isProposalId proposalId then
    .error (invalidRequest "Invalid directory proposal ID." "proposal_id")
  let baseMain ← readNullableCommitId fields "base_main"
  let baseEventSeq ← readNonNegativeInteger fields "base_event_seq"
  let items ← readIntentItems fields
  let intents ← readProposalIntents u baseMain baseEventSeq [] items
  .ok ⟨proposalId, baseMain, baseEventSeq, intents⟩

def readOptionalDirectoryProposal (field : String) : Except ValidationError (Option Proposal) :=
  match valueAt fields field with
  | none => .ok none
  | some value => do
    let proposal ← assertRecord value
    (readProposal u proposal).map some

variable {fields}

section Proposals

variable {u : Normalization} {baseEventSeq : Nat}

lemma readNonNegativeInteger_int {n : Nat}
    (h : valueAt fields field = some (.number (some n))) : readNonNegativeInteger fields field = .ok n := by
  simp only [readNonNegativeInteger, h]

lemma readProvenance_name (provenance : Metadata.Provenance)
    (h : valueAt fields "provenance" = some (.string (provenanceName provenance))) :
    readProvenance fields = .ok provenance := by
  cases provenance with
  | legacy | localV2 =>
    rw [readProvenance, readString_string (by decide) h]
    rfl

lemma readReplacesIntentId_eq_ok (h : readReplacesIntentId fields = .ok value) : value ≠ some "" := by
  unfold readReplacesIntentId at h
  split at h
  · cases h
    simp
  cases hread : readString fields "replaces_intent_id" with
  | error e =>
    rw [hread] at h
    cases h
  | ok text =>
    rw [hread] at h
    cases h
    simpa using readString_eq_ok hread

lemma readReplacesIntentId_ofOption (hvalue : value ≠ some "")
    (h : valueAt fields "replaces_intent_id" = some (Json.ofOption .string value)) :
    readReplacesIntentId fields = .ok value := by
  cases value with
  | none => simp [readReplacesIntentId, h, ofOption]
  | some text =>
    have hne : text ≠ "" := fun heq => hvalue (congrArg some heq)
    simp only [readReplacesIntentId, h, ofOption]
    rw [readString_string hne h]
    rfl

lemma readProvenanceFields_ofOption {recreated : Bool} {createdAt : Option String}
    (hrecr : valueAt fields "recreated_after_delete" = some (.boolean recreated))
    (hcr : valueAt fields "created_at" = some (Json.ofOption .string createdAt)) :
    readProvenanceFields fields = .ok (recreated, createdAt) := by
  cases createdAt <;> simp [readProvenanceFields, hrecr, hcr, ofOption]

lemma readProposalIntent_again
    {intent : ProposalIntent} (h : readProposalIntent u baseMain baseEventSeq item = .ok intent) :
    readProposalIntent u baseMain baseEventSeq intent.toJson = .ok intent := by
  obtain ⟨fields, -, h⟩ := bind_eq_ok.mp h
  obtain ⟨op, -, h⟩ := bind_eq_ok.mp h
  obtain ⟨path, hpath, h⟩ := bind_eq_ok.mp h
  obtain ⟨intentId, hid, h⟩ := bind_eq_ok.mp h
  split at h
  · cases h
  rename_i hpat
  obtain ⟨generation, -, h⟩ := bind_eq_ok.mp h
  obtain ⟨provenance, -, h⟩ := bind_eq_ok.mp h
  obtain ⟨main, hmain, h⟩ := bind_eq_ok.mp h
  obtain ⟨seq, -, h⟩ := bind_eq_ok.mp h
  obtain ⟨replaces, hrepl, h⟩ := bind_eq_ok.mp h
  obtain ⟨⟨recreated, createdAt⟩, -, h⟩ := bind_eq_ok.mp h
  dsimp only at h
  split at h
  · cases h
  rename_i hbase
  cases h
  -- each reader finds in the written record the value it returned
  set intent : ProposalIntent := ⟨op, path, intentId, generation, provenance, main, seq, replaces,
    recreated, createdAt⟩
  set fields' : Fields := definedFields [("op", some (.string (opName op))),
    ("path", some (.string path.text)), ("intent_id", some (.string intentId)),
    ("generation", some (.number (some generation))),
    ("provenance", some (.string (provenanceName provenance))),
    ("base_main", some (.ofOption .string main)), ("base_event_seq", some (.number (some seq))),
    ("replaces_intent_id", some (.ofOption .string replaces)),
    ("recreated_after_delete", some (.boolean recreated)),
    ("created_at", some (.ofOption .string createdAt))] with hfld
  have hop : readOp fields' = .ok op := readOp_opName op (by simp [hfld])
  have hpath' : readIntentPath u fields' = .ok path :=
    readIntentPath_text (readIntentPath_eq_ok hpath) (by simp [hfld])
  have hid' : readString fields' "intent_id" = .ok intentId :=
    readString_string (readString_eq_ok hid) (by simp [hfld])
  have hgen : readNonNegativeInteger fields' "generation" = .ok generation :=
    readNonNegativeInteger_int (by simp [hfld])
  have hprov : readProvenance fields' = .ok provenance :=
    readProvenance_name provenance (by simp [hfld])
  have hmain' : readNullableCommitId fields' "base_main" = .ok main :=
    readNullableCommitId_ofOption (readNullableCommitId_eq_ok hmain) (by simp [hfld])
  have hseq : readNonNegativeInteger fields' "base_event_seq" = .ok seq :=
    readNonNegativeInteger_int (by simp [hfld])
  have hrepl' : readReplacesIntentId fields' = .ok replaces :=
    readReplacesIntentId_ofOption (readReplacesIntentId_eq_ok hrepl) (by simp [hfld])
  have hrest : readProvenanceFields fields' = .ok (recreated, createdAt) :=
    readProvenanceFields_ofOption (by simp [hfld]) (by simp [hfld])
  have hjson : intent.toJson = .record fields' := rfl
  simp only [readProposalIntent, hjson, assertRecord, bind, Except.bind, hop, hpath', hid',
    if_neg hpat, hgen, hprov, hmain', hseq, hrepl', hrest, if_neg hbase, intent]

lemma readProposalIntents_again {identities : List (String × Nat)} {intents : List ProposalIntent}
    (h : readProposalIntents u baseMain baseEventSeq identities items = .ok intents) :
    readProposalIntents u baseMain baseEventSeq identities (intents.map ProposalIntent.toJson)
        = .ok intents ∧ intents.length = items.length := by
  induction items generalizing identities intents with
  | nil =>
    cases h
    exact ⟨rfl, rfl⟩
  | cons item items ih =>
    obtain ⟨intent, hintent, h⟩ := bind_eq_ok.mp h
    split at h
    · cases h
    rename_i hfresh
    obtain ⟨rest, hrest, h⟩ := bind_eq_ok.mp h
    cases h
    obtain ⟨hagain, hlen⟩ := ih hrest
    constructor
    · simp only [map_cons, readProposalIntents, readProposalIntent_again hintent, bind,
        Except.bind, if_neg hfresh, hagain]
    · simp [hlen]

lemma readIntentItems_length
    (h : readIntentItems fields = .ok items) : ¬ (items.length = 0 ∨ items.length > 5000) := by
  unfold readIntentItems at h
  split at h
  · split at h
    · cases h
    rename_i hbnd
    cases h
    exact hbnd
  · cases h

lemma readIntentItems_array (hbnd : ¬ (items.length = 0 ∨ items.length > 5000))
    (h : valueAt fields "intents" = some (.array items)) : readIntentItems fields = .ok items := by
  simp only [readIntentItems, h, if_neg hbnd]

lemma readProposal_again {proposal : Proposal} (h : readProposal u fields = .ok proposal) :
    ∃ fields', proposal.toJson = .record fields' ∧ readProposal u fields' = .ok proposal := by
  obtain ⟨-, -, h⟩ := bind_eq_ok.mp h
  obtain ⟨proposalId, hid, h⟩ := bind_eq_ok.mp h
  split at h
  · cases h
  rename_i hpat
  obtain ⟨baseMain, hmain, h⟩ := bind_eq_ok.mp h
  obtain ⟨baseEventSeq, -, h⟩ := bind_eq_ok.mp h
  obtain ⟨items, hitems, h⟩ := bind_eq_ok.mp h
  obtain ⟨intents, hints, h⟩ := bind_eq_ok.mp h
  cases h
  obtain ⟨hagain, hlen⟩ := readProposalIntents_again hints
  refine ⟨_, rfl, ?_⟩
  set fields' : Fields := definedFields [("schema_version", some (.number (some 2))),
    ("proposal_id", some (.string proposalId)), ("base_main", some (.ofOption .string baseMain)),
    ("base_event_seq", some (.number (some baseEventSeq))),
    ("intents", some (.array (intents.map ProposalIntent.toJson)))] with hfld
  have hsch : readSchemaVersion fields' = .ok () := by
    simp [readSchemaVersion, hfld]
  have hid' : readString fields' "proposal_id" = .ok proposalId :=
    readString_string (readString_eq_ok hid) (by simp [hfld])
  have hmain' : readNullableCommitId fields' "base_main" = .ok baseMain :=
    readNullableCommitId_ofOption (readNullableCommitId_eq_ok hmain) (by simp [hfld])
  have hseq : readNonNegativeInteger fields' "base_event_seq" = .ok baseEventSeq :=
    readNonNegativeInteger_int (by simp [hfld])
  have hitems' : readIntentItems fields' = .ok (intents.map ProposalIntent.toJson) := by
    refine readIntentItems_array ?_ (by simp [hfld])
    rw [length_map, hlen]
    exact readIntentItems_length hitems
  simp only [readProposal, hsch, hid', bind, Except.bind, if_neg hpat, hmain', hseq, hitems', hagain]

lemma readProposal_eq_ok {proposal : Proposal} (h : readProposal u fields = .ok proposal) :
    isProposalId proposal.proposalId ∧ proposal.intents.length ≤ 5000 := by
  obtain ⟨-, -, h⟩ := bind_eq_ok.mp h
  obtain ⟨proposalId, -, h⟩ := bind_eq_ok.mp h
  split at h
  · cases h
  rename_i hpat
  obtain ⟨baseMain, -, h⟩ := bind_eq_ok.mp h
  obtain ⟨baseEventSeq, -, h⟩ := bind_eq_ok.mp h
  obtain ⟨items, hitems, h⟩ := bind_eq_ok.mp h
  obtain ⟨intents, hints, h⟩ := bind_eq_ok.mp h
  cases h
  have hlen := (readProposalIntents_again hints).2
  have hbnd := readIntentItems_length hitems
  exact ⟨not_not.mp hpat, show intents.length ≤ 5000 by omega⟩

lemma readOptionalDirectoryProposal_eq_ok {proposal : Proposal}
    (h : readOptionalDirectoryProposal u fields field = .ok (some proposal)) :
    isProposalId proposal.proposalId ∧ proposal.intents.length ≤ 5000 := by
  unfold readOptionalDirectoryProposal at h
  split at h
  · cases h
  obtain ⟨record, -, h⟩ := bind_eq_ok.mp h
  cases hread : readProposal u record with
  | error e =>
    rw [hread] at h
    cases h
  | ok found =>
    rw [hread] at h
    cases h
    exact readProposal_eq_ok hread

lemma readOptionalDirectoryProposal_again
    {proposal : Option Proposal} (h : readOptionalDirectoryProposal u fields field = .ok proposal)
    (hfield : valueAt fields' field = proposal.map Proposal.toJson) :
    readOptionalDirectoryProposal u fields' field = .ok proposal := by
  unfold readOptionalDirectoryProposal at h
  split at h
  · cases h
    simp [readOptionalDirectoryProposal, hfield]
  obtain ⟨record, -, h⟩ := bind_eq_ok.mp h
  cases hread : readProposal u record with
  | error e =>
    rw [hread] at h
    cases h
  | ok found =>
    rw [hread] at h
    cases h
    obtain ⟨written, hwr, hagain⟩ := readProposal_again hread
    simp [readOptionalDirectoryProposal, hfield, hwr, assertRecord, bind, Except.bind, hagain, Except.map]

end Proposals

def apiVersion : String := "2026-07-12.browser-onboarding"

/-- `rootIgnore` is the root ignore identity under the one supported capability. -/
structure DevicePushManifest where
  pluginVersion : Option String
  (vaultId deviceId : String)
  expectedDeviceRef : Option String
  (targetCommit packfileSha256 : String)
  packfileBytes : Nat
  clientKnownMain : Option String
  (rootIgnore baseCommit : Option (Option String))
  renamePairs : Option (List RenamePair)
  attemptId : Option String
  directoryIntents : Option (List DirectoryIntent)
  directoryProposal : Option Proposal

structure ChunkPushCreateRequest where
  pluginVersion : Option String
  (vaultId deviceId : String)
  expectedDeviceRef : Option String
  targetCommit : String
  clientKnownMain : Option String
  (rootIgnore baseCommit : Option (Option String))
  renamePairs : Option (List RenamePair)
  directoryIntents : Option (List DirectoryIntent)
  directoryProposal : Option Proposal
  attemptId : String
  chunkCount : Nat
  planSha256 : String

def intentsToJson (intents : List DirectoryIntent) : Json := .array (intents.map intentToJson)

def renamePairsToJson (pairs : List RenamePair) : Json := .array (pairs.map pairToJson)

def DevicePushManifest.toJson (m : DevicePushManifest) : Json :=
  record [("api_version", some (.string apiVersion)), ("plugin_version", m.pluginVersion.map .string),
    ("vault_id", some (.string m.vaultId)), ("device_id", some (.string m.deviceId)),
    ("expected_device_ref", some (.ofOption .string m.expectedDeviceRef)),
    ("target_commit", some (.string m.targetCommit)),
    ("packfile_sha256", some (.string m.packfileSha256)),
    ("packfile_bytes", some (.number (some m.packfileBytes))),
    ("client_known_main", some (.ofOption .string m.clientKnownMain)),
    ("root_ignore_capability", m.rootIgnore.map fun _ => .string "root-ignore-v1"),
    ("root_ignore_oid", m.rootIgnore.map (Json.ofOption .string)),
    ("base_commit", m.baseCommit.map (Json.ofOption .string)),
    ("rename_pairs", m.renamePairs.map renamePairsToJson),
    ("directory_intents", m.directoryIntents.map intentsToJson),
    ("directory_proposal", m.directoryProposal.map Proposal.toJson),
    ("attempt_id", m.attemptId.map .string)]

def readApiVersion (fields : Fields) : Except ValidationError Unit := do
  let version ← readString fields "api_version"
  if version = apiVersion then .ok ()
  else .error ⟨"unsupported_client", "Unsupported client API version.", none⟩

/-- Whether the record has the one capability that is supported. -/
def readRootIgnoreCapability (fields : Fields) : Except ValidationError Bool :=
  match valueAt fields "root_ignore_capability" with
  | none => .ok false
  | some (.string "root-ignore-v1") => .ok true
  | some _ => .error (invalidRequest "Unsupported root ignore capability." none)

/-- Capability and identity are supplied together or not at all. -/
def readRootIgnoreAttestation (fields : Fields) : Except ValidationError (Option (Option String)) := do
  let capability ← readRootIgnoreCapability fields
  let oid ← readOptionalCommitId fields "root_ignore_oid"
  if capability = oid.isSome then .ok oid
  else .error (invalidRequest "Root ignore capability and identity must be supplied together." none)

/-- Rename pairs need a base, and legacy intents exclude a proposal. -/
def checkPairsBase (pairs : Option (List RenamePair)) (base : Option (Option String)) :
    Except ValidationError Unit :=
  if pairs.isSome && base.join.isNone then
    .error (invalidRequest "Rename pairs require an explicit base_commit." "base_commit")
  else .ok ()

def checkOneDirectoryForm (intents : Option (List DirectoryIntent)) (proposal : Option Proposal) :
    Except ValidationError Unit :=
  if intents.isSome && proposal.isSome then
    .error (invalidRequest "Use either legacy directory intents or a directory proposal, not both." none)
  else .ok ()

def parseDevicePushManifest (c : Collation) (u : Normalization) (value : Json) :
    Except ValidationError DevicePushManifest := do
  let fields ← assertRecord value
  readApiVersion fields
  let vaultId ← readString fields "vault_id"
  let deviceId ← readString fields "device_id"
  let expectedDeviceRef ← readNullableCommitId fields "expected_device_ref"
  let targetCommit ← readCommitId fields "target_commit"
  let packfileSha256 ← readSha256 fields "packfile_sha256"
  let packfileBytes ← readNonNegativeInteger fields "packfile_bytes"
  let clientKnownMain ← readNullableCommitId fields "client_known_main"
  let pluginVersion ← readOptionalString fields "plugin_version"
  let baseCommit ← readOptionalCommitId fields "base_commit"
  let attemptId ← readOptionalString fields "attempt_id"
  let rootIgnore ← readRootIgnoreAttestation fields
  let renamePairs ← readOptionalRenamePairs u fields
  checkPairsBase renamePairs baseCommit
  let directoryIntents ← readOptionalDirectoryIntents c u fields "directory_intents"
  let directoryProposal ← readOptionalDirectoryProposal u fields "directory_proposal"
  checkOneDirectoryForm directoryIntents directoryProposal
  .ok {
    pluginVersion, vaultId, deviceId, expectedDeviceRef, targetCommit, packfileSha256,
    packfileBytes, clientKnownMain, rootIgnore, baseCommit, renamePairs, attemptId,
    directoryIntents, directoryProposal }

def isAttemptIdChar (ch : Char) : Bool := isAsciiLetter ch || isDigit ch || ch = '_' || ch = '-'

def isAttemptId (text : String) : Bool := matchesClass isAttemptIdChar 8 128 text.toList

def parseChunkPushCreateRequest (c : Collation) (u : Normalization) (value : Json) :
    Except ValidationError ChunkPushCreateRequest := do
  let fields ← assertRecord value
  readApiVersion fields
  let attemptId ← readString fields "attempt_id"
  if ¬ isAttemptId attemptId then .error (invalidRequest "Invalid attempt ID." "attempt_id")
  let planSha256 ← readSha256 fields "plan_sha256"
  let chunkCount ← readNonNegativeInteger fields "chunk_count"
  if chunkCount > 4096 then .error (invalidRequest "Invalid chunk count." "chunk_count")
  let pluginVersion ← readOptionalString fields "plugin_version"
  let baseCommit ← readOptionalCommitId fields "base_commit"
  let renamePairs ← readOptionalRenamePairs u fields
  let directoryIntents ← readOptionalDirectoryIntents c u fields "directory_intents"
  let directoryProposal ← readOptionalDirectoryProposal u fields "directory_proposal"
  let rootIgnore ← readRootIgnoreAttestation fields
  checkPairsBase renamePairs baseCommit
  checkOneDirectoryForm directoryIntents directoryProposal
  let vaultId ← readString fields "vault_id"
  let deviceId ← readString fields "device_id"
  let expectedDeviceRef ← readNullableCommitId fields "expected_device_ref"
  let targetCommit ← readCommitId fields "target_commit"
  let clientKnownMain ← readNullableCommitId fields "client_known_main"
  .ok {
    pluginVersion, vaultId, deviceId, expectedDeviceRef, targetCommit, clientKnownMain, rootIgnore,
    baseCommit, renamePairs, directoryIntents, directoryProposal, attemptId, chunkCount,
    planSha256 }

/-- The manifest of a transfer: the creation request's, with an empty pack file. -/
def ChunkPushCreateRequest.manifest (request : ChunkPushCreateRequest) (emptySha256 : String) :
    DevicePushManifest where
  pluginVersion := request.pluginVersion
  vaultId := request.vaultId
  deviceId := request.deviceId
  expectedDeviceRef := request.expectedDeviceRef
  targetCommit := request.targetCommit
  packfileSha256 := emptySha256
  packfileBytes := 0
  clientKnownMain := request.clientKnownMain
  rootIgnore := request.rootIgnore
  baseCommit := request.baseCommit
  renamePairs := request.renamePairs
  attemptId := some request.attemptId
  directoryIntents := request.directoryIntents
  directoryProposal := request.directoryProposal

section Manifests

variable {c : Collation} {u : Normalization} {request : ChunkPushCreateRequest} {value : Json}

lemma readRootIgnoreAttestation_again {value : Option (Option String)}
    (h : readRootIgnoreAttestation fields = .ok value)
    (hcap : valueAt fields' "root_ignore_capability" = value.map fun _ => .string "root-ignore-v1")
    (hoid : valueAt fields' "root_ignore_oid" = value.map (Json.ofOption .string)) :
    readRootIgnoreAttestation fields' = .ok value := by
  obtain ⟨capability, -, h⟩ := bind_eq_ok.mp h
  obtain ⟨oid, hread, h⟩ := bind_eq_ok.mp h
  split at h
  · obtain rfl := Except.ok.inj h
    have hagain := readOptionalCommitId_again hread hoid
    have hsupp : readRootIgnoreCapability fields' = .ok oid.isSome := by
      cases oid <;> simp [readRootIgnoreCapability, hcap]
    simp [readRootIgnoreAttestation, hsupp, bind, Except.bind, hagain]
  · cases h

/-- The manifest of a validated creation request is accepted and comes back unchanged. -/
lemma parseDevicePushManifest_manifest
    {emptySha256 : String} (h : parseChunkPushCreateRequest c u value = .ok request)
    (hsha : isSha256 emptySha256) : parseDevicePushManifest c u (request.manifest emptySha256).toJson
      = .ok (request.manifest emptySha256) := by
  obtain ⟨fields, -, h⟩ := bind_eq_ok.mp h
  obtain ⟨-, -, h⟩ := bind_eq_ok.mp h
  obtain ⟨attemptId, hatt, h⟩ := bind_eq_ok.mp h
  split at h
  · cases h
  obtain ⟨planSha256, -, h⟩ := bind_eq_ok.mp h
  obtain ⟨chunkCount, -, h⟩ := bind_eq_ok.mp h
  split at h
  · cases h
  obtain ⟨pluginVersion, hplug, h⟩ := bind_eq_ok.mp h
  obtain ⟨baseCommit, hbase, h⟩ := bind_eq_ok.mp h
  obtain ⟨renamePairs, hpairs, h⟩ := bind_eq_ok.mp h
  obtain ⟨directoryIntents, hints, h⟩ := bind_eq_ok.mp h
  obtain ⟨directoryProposal, hprop, h⟩ := bind_eq_ok.mp h
  obtain ⟨rootIgnore, hroot, h⟩ := bind_eq_ok.mp h
  obtain ⟨⟨⟩, hpaiB, h⟩ := bind_eq_ok.mp h
  obtain ⟨⟨⟩, honeF, h⟩ := bind_eq_ok.mp h
  obtain ⟨vaultId, hvault, h⟩ := bind_eq_ok.mp h
  obtain ⟨deviceId, hdev, h⟩ := bind_eq_ok.mp h
  obtain ⟨expected, hexp, h⟩ := bind_eq_ok.mp h
  obtain ⟨target, htgt, h⟩ := bind_eq_ok.mp h
  obtain ⟨known, hknown, h⟩ := bind_eq_ok.mp h
  cases h
  generalize hman : ChunkPushCreateRequest.manifest _ emptySha256 = m
  obtain ⟨fields', hfld⟩ : ∃ fields', m.toJson = .record fields' := ⟨_, rfl⟩
  have hlook : m.toJson = .record fields' := hfld
  simp only [DevicePushManifest.toJson, record, JsonTrees.Tree.record.injEq] at hfld
  simp only [ChunkPushCreateRequest.manifest] at hman
  subst hman
  have hvers : readApiVersion fields' = .ok () := by
    have hread : readString fields' "api_version" = .ok apiVersion :=
      readString_string (by decide) (by simp [← hfld])
    simp [readApiVersion, hread, bind, Except.bind]
  have hvault' : readString fields' "vault_id" = .ok vaultId :=
    readString_string (readString_eq_ok hvault) (by simp [← hfld])
  have hdev' : readString fields' "device_id" = .ok deviceId :=
    readString_string (readString_eq_ok hdev) (by simp [← hfld])
  have hexp' : readNullableCommitId fields' "expected_device_ref" = .ok expected :=
    readNullableCommitId_ofOption (readNullableCommitId_eq_ok hexp) (by simp [← hfld])
  have htgt' : readCommitId fields' "target_commit" = .ok target :=
    readCommitId_string (readCommitId_eq_ok htgt).2 (by simp [← hfld])
  have hsha' : readSha256 fields' "packfile_sha256" = .ok emptySha256 :=
    readSha256_string hsha (by simp [← hfld])
  have hbytes : readNonNegativeInteger fields' "packfile_bytes" = .ok 0 :=
    readNonNegativeInteger_int (by simp [← hfld])
  have hknown' : readNullableCommitId fields' "client_known_main" = .ok known :=
    readNullableCommitId_ofOption (readNullableCommitId_eq_ok hknown) (by simp [← hfld])
  have hplug' : readOptionalString fields' "plugin_version" = .ok pluginVersion :=
    readOptionalString_again hplug (by simp [← hfld])
  have hbase' : readOptionalCommitId fields' "base_commit" = .ok baseCommit :=
    readOptionalCommitId_again hbase (by simp [← hfld])
  have hatt' : readOptionalString fields' "attempt_id" = .ok (some attemptId) := by
    have hfield : valueAt fields' "attempt_id" = some (.string attemptId) := by
      simp [← hfld]
    simp [readOptionalString, hfield, readString_eq_ok hatt]
  have hroot' : readRootIgnoreAttestation fields' = .ok rootIgnore :=
    readRootIgnoreAttestation_again hroot (by simp [← hfld]) (by simp [← hfld])
  have hpairs' : readOptionalRenamePairs u fields' = .ok renamePairs :=
    readOptionalRenamePairs_again hpairs (by simp [← hfld]; rfl)
  have hints' : readOptionalDirectoryIntents c u fields' "directory_intents"
      = .ok directoryIntents :=
    readOptionalDirectoryIntents_again hints (by simp [← hfld]; rfl)
  have hprop' : readOptionalDirectoryProposal u fields' "directory_proposal"
      = .ok directoryProposal :=
    readOptionalDirectoryProposal_again hprop (by simp [← hfld])
  simp [parseDevicePushManifest, hlook, assertRecord, bind, Except.bind, hvers, hvault', hdev', hexp', htgt', hsha',
    hbytes, hknown', hplug', hbase', hatt', hroot', hpairs', hpaiB, hints', hprop', honeF]

lemma parseChunkPushCreateRequest_eq_ok (h : parseChunkPushCreateRequest c u value = .ok request) :
    isAttemptId request.attemptId ∧ isSha256 request.planSha256 ∧ request.chunkCount ≤ 4096 := by
  obtain ⟨fields, -, h⟩ := bind_eq_ok.mp h
  obtain ⟨-, -, h⟩ := bind_eq_ok.mp h
  obtain ⟨attemptId, -, h⟩ := bind_eq_ok.mp h
  split at h
  · cases h
  rename_i hatt
  obtain ⟨planSha256, hplan, h⟩ := bind_eq_ok.mp h
  obtain ⟨chunkCount, -, h⟩ := bind_eq_ok.mp h
  split at h
  · cases h
  rename_i hcount
  iterate 13 obtain ⟨_, -, h⟩ := bind_eq_ok.mp h
  cases h
  exact ⟨not_not.mp hatt, readSha256_eq_ok hplan, Nat.le_of_not_gt hcount⟩

lemma parseDevicePushManifest_eq_ok {manifest : DevicePushManifest}
    (h : parseDevicePushManifest c u value = .ok manifest) :
    (∀ proposal, manifest.directoryProposal = some proposal →
      isProposalId proposal.proposalId ∧ proposal.intents.length ≤ 5000) ∧
    ∀ intents, manifest.directoryIntents = some intents → intents.length ≤ 5000 := by
  iterate 15 obtain ⟨_, -, h⟩ := bind_eq_ok.mp h
  obtain ⟨intents, hints, h⟩ := bind_eq_ok.mp h
  obtain ⟨proposal, hprop, h⟩ := bind_eq_ok.mp h
  obtain ⟨-, -, h⟩ := bind_eq_ok.mp h
  cases h
  exact ⟨fun _ heq => readOptionalDirectoryProposal_eq_ok (hprop.trans (congrArg _ heq)),
    fun _ heq => readOptionalDirectoryIntents_length (hints.trans (congrArg _ heq))⟩

end Manifests

end PushManifests
