import Obts.JsonValues

/-!
# Access policies

The policy of a context lists rules for reading, creating and editing notes. A rule allows or denies
the notes that its matcher matches; one with both or with neither has no effect. Times are in
microseconds.
-/
namespace AccessPolicies

open JsonValues RustText List

structure PolicyNote where
  (path title : String)
  tags : List String
  createdAt : Option Int
  updatedAt : Int
  owner : Option String

def ownerFromValue (value : Option Value) : Option String :=
  ((value.bind Value.asStr).map trim).filter (· ≠ "")

/-- The current location has precedence over the old one below `vault_bridge`. -/
def ownerFromFrontmatter (frontmatter : Value) : Option String :=
  (ownerFromValue (frontmatter.get "created_by")).or
    ((frontmatter.get "vault_bridge").bind fun legacy =>
      legacy.asObject.bind fun metadata => ownerFromValue (metadata.get "created_by"))

/-- An owner has no white space around it. -/
lemma ownerFromFrontmatter_trimmed {frontmatter : Value} {owner : String}
    (h : ownerFromFrontmatter frontmatter = some owner) : trim owner = owner ∧ owner ≠ "" := by
  have hvalue : ∀ {value : Option Value}, ownerFromValue value = some owner →
      trim owner = owner ∧ owner ≠ "" := by
    intro value hvalue
    obtain ⟨hmap, hne⟩ := Option.filter_eq_some_iff.mp hvalue
    obtain ⟨text, -, rfl⟩ := Option.map_eq_some_iff.mp hmap
    exact ⟨trim_trim text, by simpa using hne⟩
  rcases Option.or_eq_some_iff.mp h with htop | ⟨-, hleg⟩
  · exact hvalue htop
  obtain ⟨legacy, -, hleg⟩ := Option.bind_eq_some_iff.mp hleg
  obtain ⟨metadata, -, hmeta⟩ := Option.bind_eq_some_iff.mp hleg
  exact hvalue hmeta

def normalizeTag (tag : String) : String := trim (trimStartMatches (trim tag) '#')

def tagMatches (candidate expected : String) : Bool :=
  eqIgnoreAsciiCase (normalizeTag candidate) (normalizeTag expected)

/-- What two tags that match have in common. -/
def policyTag (tag : String) : String := toAsciiLowercase (normalizeTag tag)

lemma tagMatches_iff {candidate expected : String} :
    tagMatches candidate expected ↔ policyTag candidate = policyTag expected :=
  eqIgnoreAsciiCase_iff

def pathHasPrefix (path pathPrefix : String) : Bool :=
  let path := trimStartMatches path '/'
  let pathPrefix := trimStartMatches (trim pathPrefix) '/'
  if pathPrefix = "" then true
  else if endsWith pathPrefix "/" then startsWith path pathPrefix
  else path = pathPrefix || startsWith path (pathPrefix ++ "/")

structure AccessMatcher where
  default : Option Bool := none
  pathPrefix : Option String := none
  pathPrefixes : List String := []
  tagsAll : List String := []
  tagsAny : List String := []
  tagsNone : List String := []
  createdAfter : Option Int := none
  createdBefore : Option Int := none
  updatedAfter : Option Int := none
  updatedBefore : Option Int := none
  createdWithinSeconds : Option Int := none
  updatedWithinSeconds : Option Int := none
  owner : Option Bool := none
  titleRegex : Option String := none

structure AccessRule where
  allow : Option AccessMatcher := none
  deny : Option AccessMatcher := none
  addTags : List String := []
  setOwner : Bool := false
  preserveTags : List String := []

structure AccessPolicy where
  (read create edit : List AccessRule)

variable (rule : AccessRule)

def AccessRule.matcher : Option AccessMatcher := rule.allow.or rule.deny

def AccessRule.isAllow : Bool := rule.allow.isSome && rule.deny.isNone

def AccessRule.isDeny : Bool := rule.deny.isSome && rule.allow.isNone

structure AuthContext where
  (context principal : String)

/-- The policies by context. -/
abbrev AuthorizationConfig := List (String × AccessPolicy)

def AuthorizationConfig.get (config : AuthorizationConfig) (context : String) : Option AccessPolicy :=
  (config.find? fun entry => entry.1 = context).map Prod.snd

inductive Operation where
  | read
  | create
  | edit

def AccessPolicy.rules (policy : AccessPolicy) : Operation → List AccessRule
  | .read => policy.read
  | .create => policy.create
  | .edit => policy.edit

/-- The window in microseconds; a negative one is empty. -/
def windowOf (seconds : Int) : Int := max seconds 0 * 1000000

section Matching
variable (regex : String → Option (String → Bool))

/-- `regex` compiles a pattern, unless it is invalid, and tests a text. -/
def AccessMatcher.matches (matcher : AccessMatcher) (note : PolicyNote) (principal : String) (now : Int) : Bool :=
  matcher.default.getD false ||
  (matcher.pathPrefix.all (pathHasPrefix note.path) &&
  (matcher.pathPrefixes.isEmpty || matcher.pathPrefixes.any (pathHasPrefix note.path)) &&
  (matcher.tagsAll.all fun tag => note.tags.any fun candidate => tagMatches candidate tag) &&
  (matcher.tagsAny.isEmpty ||
    matcher.tagsAny.any fun tag => note.tags.any fun candidate => tagMatches candidate tag) &&
  !(matcher.tagsNone.any fun tag => note.tags.any fun candidate => tagMatches candidate tag) &&
  (matcher.createdAfter.all fun after => note.createdAt.any fun created => after ≤ created) &&
  (matcher.createdBefore.all fun before => note.createdAt.any fun created => created ≤ before) &&
  (matcher.updatedAfter.all fun after => after ≤ note.updatedAt) &&
  (matcher.updatedBefore.all fun before => note.updatedAt ≤ before) &&
  (matcher.createdWithinSeconds.all fun seconds =>
    note.createdAt.any fun created => now - created ≤ windowOf seconds) &&
  (matcher.updatedWithinSeconds.all fun seconds => now - note.updatedAt ≤ windowOf seconds) &&
  (matcher.owner.all fun required => decide (note.owner = some principal) = required) &&
  (matcher.titleRegex.all fun pattern => (regex pattern).any fun isMatch => isMatch note.title))

structure PolicyDecision where
  addTags : List String := []
  preserveTags : List String := []
  setOwner : Bool := false

def addUniqueTag (tags : List String) (tag : String) : List String :=
  let tag := normalizeTag tag
  if tag = "" then tags
  else if tags.any fun candidate => tagMatches candidate tag then tags
  else tags ++ [tag]

def mergeRuleDecision (decision : PolicyDecision) (rule : AccessRule) : PolicyDecision where
  addTags := rule.addTags.foldl addUniqueTag decision.addTags
  preserveTags := rule.preserveTags.foldl addUniqueTag decision.preserveTags
  setOwner := decision.setOwner || rule.setOwner

/-- The rule has an effect of its kind on the note. -/
def AccessRule.applies (rule : AccessRule) (note : PolicyNote) (principal : String) (now : Int) : Bool :=
  rule.matcher.any fun matcher => matcher.matches regex note principal now

variable (config : AuthorizationConfig)

def policyDecisionFor (auth : AuthContext) (operation : Operation)
    (note : PolicyNote) (now : Int) : Option PolicyDecision :=
  (config.get auth.context).bind fun policy =>
    let rules := policy.rules operation
    if rules.any fun rule => rule.isDeny && rule.applies regex note auth.principal now then none
    else
      let matching := rules.filter fun rule => rule.isAllow && rule.applies regex note auth.principal now
      if matching.isEmpty then none else some (matching.foldl mergeRuleDecision {})

def policyAllows (auth : AuthContext) (operation : Operation) (note : PolicyNote) (now : Int) : Bool :=
  (policyDecisionFor regex config auth operation note now).isSome

variable {regex} {note : PolicyNote} {now : Int}

lemma AccessRule.applies_iff {rule : AccessRule} {principal : String} : rule.applies regex note principal now ↔
      ∃ matcher, rule.matcher = some matcher ∧ matcher.matches regex note principal now := by
  rw [AccessRule.applies, Option.any_eq_true]

/-- Some rule allows the note and none denies it. -/
lemma policyAllows_iff {config : AuthorizationConfig} {auth : AuthContext} {operation : Operation} :
    policyAllows regex config auth operation note now ↔ ∃ policy, config.get auth.context = some policy ∧
        (∃ rule ∈ policy.rules operation, rule.isAllow ∧ rule.applies regex note auth.principal now) ∧
        ∀ rule ∈ policy.rules operation, rule.isDeny → ¬ rule.applies regex note auth.principal now := by
  rw [policyAllows, policyDecisionFor, Option.isSome_bind]
  cases config.get auth.context with
  | none => simp
  | some policy =>
    rw [Option.any_some]
    dsimp only
    constructor
    · intro h
      split at h
      · cases h
      rename_i hden
      split at h
      · cases h
      rename_i hmatc
      have hdeny : ∀ rule ∈ policy.rules operation, rule.isDeny = true →
          ¬ rule.applies regex note auth.principal now = true := by
        intro rule hrule hkind happ
        exact hden (any_eq_true.mpr ⟨rule, hrule, by rw [hkind, happ]; rfl⟩)
      obtain ⟨rule, hrule⟩ := isEmpty_eq_false_iff_exists_mem.mp (Bool.not_eq_true _ ▸ hmatc)
      obtain ⟨hmem, halw⟩ := mem_filter.mp hrule
      exact ⟨policy, rfl, ⟨rule, hmem, Bool.and_eq_true_iff.mp halw⟩, hdeny⟩
    · rintro ⟨policy', hpol, ⟨rule, hrule, hkind, happ⟩, hdeny⟩
      cases hpol
      rw [if_neg, if_neg]
      · rfl
      · rw [Bool.not_eq_true, isEmpty_eq_false_iff_exists_mem]
        exact ⟨rule, mem_filter.mpr ⟨hrule, by rw [hkind, happ]; rfl⟩⟩
      rw [any_eq_true]
      rintro ⟨denying, hmem, hdenies⟩
      obtain ⟨hkind, happ⟩ := Bool.and_eq_true_iff.mp hdenies
      exact hdeny denying hmem hkind happ

end Matching

end AccessPolicies
