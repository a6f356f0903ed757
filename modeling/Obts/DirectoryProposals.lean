import Obts.Metadata

/-!
# Directory proposals

A device proposes an ordered list of directory intents against the snapshot it last
acknowledged. The service compares them with the net change of the server's directories
since that snapshot and either accepts the whole list or records a conflict. The commit
graph and the request digest are the service's environment.
-/
namespace DirectoryProposals

open ForestEdits SlashPath DirectoryIntents Metadata InsertionOrder List

/-- What the classification asks of the runtime, of Git and of the digest. -/
structure Services where
  collation : Collation
  directoryProposalRequestSha256 : DirectoryProposal → String
  commitExists : String → String → Bool
  isAncestor : String → String → String → Bool

def isSafeInteger (n : Nat) : Bool := n ≤ 2 ^ 53 - 1

def directoryNeutralEventTypes : List EventType :=
  [.deviceRefUpdated, .deviceSyncRejected, .deviceRecoveryRequired, .conflictCreated,
    .conflictReviewRefreshed, .conflictResolved, .noteRestored, .deviceStateChanged,
    .vaultMaintenanceStarted, .vaultMaintenanceFinished]

/-- The test that `hasContiguousDirectoryNeutralEventGap` makes of one event. -/
def isDirectoryNeutralAt (expectedSeq : Nat) (event : EventEnvelope) : Bool :=
  event.eventSeq = expectedSeq &&
    (match event.directoryIntents with
      | .absent => true
      | .notArray => false
      | .array intents => !(decide (0 < intents.length))) &&
    (event.eventType = .mainAdvanced || directoryNeutralEventTypes.contains event.eventType)

def hasContiguousDirectoryNeutralEventGap (db : MetadataDb) (vaultId : String)
    (afterEventSeq throughEventSeq : Nat) : Bool :=
  if !isSafeInteger afterEventSeq || !isSafeInteger throughEventSeq || throughEventSeq ≤ afterEventSeq then false
  else
    let expectedCount := throughEventSeq - afterEventSeq
    let events := sortBy (compareOn EventEnvelope.eventSeq) (db.events.filter fun event =>
      event.vaultId = vaultId && afterEventSeq < event.eventSeq && event.eventSeq ≤ throughEventSeq)
    if events.length ≠ expectedCount then false
    else events.zipIdx.all fun (event, index) => isDirectoryNeutralAt (afterEventSeq + index + 1) event

variable (services : Services) (db : MetadataDb)

def hasUsableDirectoryProposalBaseline (device : DeviceRow) (proposal : DirectoryProposal) : Bool :=
  if device.lastAppliedExplicitDirs.isNone then false
  else if proposal.baseMain = device.lastAppliedMain && proposal.baseEventSeq = device.lastAppliedEventSeq then true
  else if !isSafeInteger proposal.baseEventSeq || device.lastAppliedEventSeq ≤ proposal.baseEventSeq ||
      !hasContiguousDirectoryNeutralEventGap db device.vaultId proposal.baseEventSeq
        device.lastAppliedEventSeq then false
  else if proposal.baseMain = device.lastAppliedMain then true
  else
    match proposal.baseMain, device.lastAppliedMain with
    | some base, some applied =>
      base ≠ "" && applied ≠ "" && services.commitExists device.vaultId base &&
        services.isAncestor device.vaultId base applied
    | _, _ => false

def findDirectoryProposalResult (vaultId deviceId : String) (proposal : DirectoryProposal) :
    Except Failure (Option DirectoryProposalResultRow) :=
  match db.directoryProposalResults.find? (·.proposalId = proposal.proposalId) with
  | none => .ok none
  | some result =>
    if result.vaultId ≠ vaultId || result.deviceId ≠ deviceId ||
        result.requestSha256 ≠ services.directoryProposalRequestSha256 proposal then
      .error (.auth ⟨409, "directory_proposal_mismatch",
        "Directory proposal ID was reused with different content."⟩)
    else .ok (some result)

variable (serverIntents : List DirectoryIntent)

/-- The server's net intents that go against `intent` at an overlapping path. -/
def opposingIntents (intent : DirectoryIntent) : List DirectoryIntent :=
  serverIntents.filter fun serverIntent =>
    serverIntent.op != intent.op && pathsOverlap serverIntent.path intent.path

variable (serverExplicitDirs : List Path) (intent : DirectoryProposalIntent)

/-- A legacy intent carries no outcome of its own, so the server's state has to confirm it. -/
def unknownLegacyOutcome : Bool :=
  let serverHasPath := serverExplicitDirs.any fun path =>
    path = intent.path || path.startsWithDir intent.path
  intent.provenance = .legacy && ((intent.op = .create && !serverHasPath) || (intent.op = .delete && serverHasPath))

def isConflicting : Bool :=
  unknownLegacyOutcome serverExplicitDirs intent ||
    serverIntents.any fun serverIntent =>
      serverIntent.op != intent.op && pathsOverlap serverIntent.path intent.path

variable (c : Collation)

def conflictingOf (base server : List Path)
    (intents : List DirectoryProposalIntent) : List DirectoryProposalIntent :=
  intents.filter (isConflicting (directoryIntentsBetweenSnapshots c base server) server)

/-- The intents whose identifier no conflicting intent carries. -/
def cleanOf (base server : List Path)
    (intents : List DirectoryProposalIntent) : List DirectoryProposalIntent :=
  let conflictingIds := (conflictingOf c base server intents).map (·.intentId)
  intents.filter fun intent => !conflictingIds.contains intent.intentId

def affectedRootsOf (base server : List Path)
    (intents : List DirectoryProposalIntent) : List Path :=
  let serverIntents := directoryIntentsBetweenSnapshots c base server
  topmostDirectoryPaths c ((conflictingOf c base server intents).flatMap fun intent =>
    intent.path :: (opposingIntents serverIntents intent.toDirectoryIntent).map (·.path))

def staleBase : Failure :=
  .auth ⟨409, "stale_directory_proposal_base",
    "Directory proposal does not match the device acknowledged baseline."⟩

/-- The plan for a proposal, from the device's last applied directories. -/
def planFor (vaultId : String) (proposal : DirectoryProposal) (lastApplied : List Path) : DirectoryMergePlan :=
  let base := sort lastApplied
  let server := sort (db.explicitDirs vaultId)
  { proposal
    requestSha256 := services.directoryProposalRequestSha256 proposal
    baseExplicitDirs := base
    serverExplicitDirs := server
    cleanIntents := cleanOf services.collation base server proposal.intents
    conflictingIntents := conflictingOf services.collation base server proposal.intents
    affectedRoots := affectedRootsOf services.collation base server proposal.intents
    expectedEventSeq := db.lastDirectoryEventSeq vaultId }

def classifyDirectoryProposal (vaultId deviceId : String) (proposal : DirectoryProposal) :
    Except Failure DirectoryMergePlan := do
  let device ← requireDevice db deviceId
  match device.lastAppliedExplicitDirs with
  | none => throw staleBase
  | some lastApplied =>
    if !hasUsableDirectoryProposalBaseline services db device proposal then throw staleBase
    let _ ← findDirectoryProposalResult services db vaultId deviceId proposal
    return planFor services db vaultId proposal lastApplied

lemma classifyDirectoryProposal_ok {services : Services} {db : MetadataDb}
    {vaultId deviceId : String} {proposal : DirectoryProposal} {plan : DirectoryMergePlan}
    (h : classifyDirectoryProposal services db vaultId deviceId proposal = .ok plan) :
    ∃ device lastApplied, requireDevice db deviceId = .ok device ∧
      device.lastAppliedExplicitDirs = some lastApplied ∧
      plan = planFor services db vaultId proposal lastApplied := by
  rw [classifyDirectoryProposal] at h
  cases hdev : requireDevice db deviceId with
  | error e => simp [hdev, bind, Except.bind] at h
  | ok device =>
    cases hdirs : device.lastAppliedExplicitDirs with
    | none => simp [hdev, hdirs, bind, Except.bind, throw, throwThe, MonadExceptOf.throw] at h
    | some lastApplied =>
      refine ⟨device, lastApplied, rfl, hdirs, ?_⟩
      by_cases husab : hasUsableDirectoryProposalBaseline services db device proposal = true
      · cases hfind : findDirectoryProposalResult services db vaultId deviceId proposal with
        | error e => simp [hdev, hdirs, husab, hfind, bind, Except.bind] at h
        | ok result =>
          simp [hdev, hdirs, husab, hfind, bind, Except.bind, pure, Except.pure] at h
          exact h.symm
      · simp [hdev, hdirs, husab, bind, Except.bind, throw, throwThe, MonadExceptOf.throw] at h

section Clean

variable {c : Collation} {base server : List Path} {intents : List DirectoryProposalIntent}
  {intent : DirectoryProposalIntent}

lemma mem_conflictingOf : intent ∈ conflictingOf c base server intents ↔ intent ∈ intents ∧
      isConflicting (directoryIntentsBetweenSnapshots c base server) server intent := by
  rw [conflictingOf, mem_filter]

/-- A conflicting intent lies at or below an affected root. -/
lemma exists_affectedRoot_le (h : intent ∈ conflictingOf c base server intents) :
    ∃ root ∈ affectedRootsOf c base server intents, root ≤ intent.path := by
  refine exists_mem_topmostDirectoryPaths_le (mem_flatMap.mpr ⟨intent, h, ?_⟩)
  exact mem_cons_self

lemma conflictingOf_eq_nil (h : affectedRootsOf c base server intents = []) :
    conflictingOf c base server intents = [] := by
  refine eq_nil_iff_forall_not_mem.mpr fun intent hintent => ?_
  obtain ⟨root, hroot, _⟩ := exists_affectedRoot_le hintent
  rw [h] at hroot
  simp at hroot

/-- The net intents stand for the whole difference of the snapshots: an intent that none of
them opposes is opposed by no single changed path. -/
lemma unopposed_of_not_isConflicting
    (h : isConflicting (directoryIntentsBetweenSnapshots c base server) server intent ≠ true) :
    Unopposed (dirs base) (dirs server) intent.edit := by
  have hnone : ∀ serverIntent ∈ directoryIntentsBetweenSnapshots c base server,
      serverIntent.op ≠ intent.op → ¬ Overlap serverIntent.path intent.path := by
    intro serverIntent hmem hop hover
    refine h ?_
    rw [isConflicting, Bool.or_eq_true, any_eq_true]
    refine Or.inr ⟨serverIntent, hmem, ?_⟩
    simp [hop, pathsOverlap_iff.mpr hover]
  cases hop : intent.op with
  | create =>
    simp only [Unopposed, DirectoryIntent.edit_op, hop]
    rintro x ⟨hxb, hxs⟩ hover
    obtain ⟨d, hd, hdx⟩ := exists_mem_deleted_le hxb hxs
    have hmem : (⟨.delete, d⟩ : DirectoryIntent) ∈ directoryIntentsBetweenSnapshots c base server :=
      mem_directoryIntentsBetweenSnapshots.mpr (Or.inl ⟨rfl, hd⟩)
    exact hnone _ hmem (by simp [hop]) (hover.mono_left hdx)
  | delete =>
    simp only [Unopposed, DirectoryIntent.edit_op, hop]
    rintro x ⟨hxs, hxb⟩ hover
    have hmem : (⟨.create, x⟩ : DirectoryIntent) ∈ directoryIntentsBetweenSnapshots c base server :=
      mem_directoryIntentsBetweenSnapshots.mpr (Or.inr ⟨rfl, mem_created.mpr ⟨hxs, hxb⟩⟩)
    exact hnone _ hmem (by simp [hop]) hover

end Clean

@[simp] lemma dirs_sort (paths : List Path) : dirs (sort paths) = dirs paths := by
  ext q
  simp

/-- A proposal without affected roots merges three ways: where it changes the acknowledged
snapshot its outcome stands, and everywhere else the server's state does. -/
theorem clean_proposal_three_way {services : Services} {db : MetadataDb}
    {vaultId deviceId : String} {proposal : DirectoryProposal} {plan : DirectoryMergePlan}
    {device : DeviceRow} {lastApplied : List Path}
    (hplan : classifyDirectoryProposal services db vaultId deviceId proposal = .ok plan)
    (hdevice : requireDevice db deviceId = .ok device)
    (hbase : device.lastAppliedExplicitDirs = some lastApplied)
    (hroots : plan.affectedRoots = []) (eventSeq now : Nat) (q : Path) :
    let outcome := applyDirectoryIntentsToSnapshot lastApplied proposal.directoryIntents
    let merged := (applyDirectoryIntents db vaultId proposal.directoryIntents eventSeq now).explicitDirs vaultId
    (¬ (q ∈ outcome ↔ q ∈ lastApplied) → (q ∈ merged ↔ q ∈ outcome)) ∧
      ((q ∈ outcome ↔ q ∈ lastApplied) → (q ∈ merged ↔ q ∈ db.explicitDirs vaultId)) := by
  intro outcome merged
  obtain ⟨device', lastApplied', hdevice', hbase', rfl⟩ := classifyDirectoryProposal_ok hplan
  obtain rfl : device = device' := Except.ok.inj (hdevice.symm.trans hdevice')
  obtain rfl : lastApplied = lastApplied' := Option.some.inj (hbase.symm.trans hbase')
  have hunop : ∀ e ∈ edits proposal.directoryIntents,
      Unopposed (dirs lastApplied) (dirs (db.explicitDirs vaultId)) e := by
    intro e he
    simp only [edits, DirectoryProposal.directoryIntents, map_map, mem_map] at he
    obtain ⟨intent, hintent, rfl⟩ := he
    have hclean := conflictingOf_eq_nil hroots
    rw [← dirs_sort lastApplied, ← dirs_sort (db.explicitDirs vaultId)]
    refine unopposed_of_not_isConflicting (c := services.collation) fun hconf => ?_
    have hmem := mem_conflictingOf.mpr ⟨hintent, hconf⟩
    rw [hclean] at hmem
    simp at hmem
  have hthree := run_three_way hunop q
  rw [← dirs_applyDirectoryIntentsToSnapshot,
    ← dirs_applyDirectoryIntents db vaultId proposal.directoryIntents eventSeq now] at hthree
  exact hthree

def sampleServices : Services where
  collation := codePointCollation
  directoryProposalRequestSha256 proposal := proposal.proposalId
  commitExists _ _ := true
  isAncestor _ _ _ := true

/-- The device knows `a`; meanwhile the server has got `b`. -/
def sampleDb : MetadataDb where
  devices := [⟨"device", "vault", none, some "main", 1, some [⟨"a"⟩]⟩]
  directoryStateByVault := fun _ => some ⟨[⟨"a"⟩, ⟨"b"⟩], 0, 2⟩

/-- The device deletes `a` and recreates it with a child. -/
def sampleProposal : DirectoryProposal where
  proposalId := "proposal"
  baseMain := some "main"
  baseEventSeq := 1
  intents :=
    [{ op := .delete, path := ⟨"a"⟩, intentId := "i0", generation := 0, provenance := .localV2 },
      { op := .create, path := ⟨"a/x"⟩, intentId := "i1", generation := 1, provenance := .localV2 }]

theorem clean_proposal_three_way_recreated :
    let plan := planFor sampleServices sampleDb "vault" sampleProposal [⟨"a"⟩]
    let merged := (applyDirectoryIntents sampleDb "vault" sampleProposal.directoryIntents 3 0).explicitDirs "vault"
    classifyDirectoryProposal sampleServices sampleDb "vault" "device" sampleProposal = .ok plan ∧
      plan.affectedRoots = [] ∧ merged = [⟨"a"⟩, ⟨"a/x"⟩, ⟨"b"⟩] ∧
      ((⟨"a/x"⟩ : Path) ∈ merged ↔
        ⟨"a/x"⟩ ∈ applyDirectoryIntentsToSnapshot [⟨"a"⟩] sampleProposal.directoryIntents) := by
  intro plan merged
  have hplan : classifyDirectoryProposal sampleServices sampleDb "vault" "device" sampleProposal
      = .ok plan := by decide
  have hroots : plan.affectedRoots = [] := by decide
  exact ⟨hplan, hroots, by decide,
    (clean_proposal_three_way hplan rfl rfl hroots 3 0 ⟨"a/x"⟩).1 (by decide)⟩

end DirectoryProposals
