import Obts.DirectoryResolution

/-!
# Clean and conflicting intents

An intent of a proposal has an identifier and a generation, and a proposal may hold several generations of one
identifier. Classification, storage and recovery look at the identifier alone. So an intent that is not
conflicting is dropped when another generation of it is, and recovery takes it for a conflicting one; where
all generations have one verdict, every intent is on exactly one side, before and after recovery.
-/
namespace ProposalPartition

open SlashPath DirectoryIntents Metadata DirectoryProposals DirectoryResolution List

section Keyed

variable {α κ : Type*} [DecidableEq κ] (key : α → κ) (verdict : α → Bool) (as : List α)

/-- The items whose key no item with the verdict has. -/
def unflagged : List α := as.filter fun a => !((as.filter verdict).map key).contains (key a)

/-- The items whose key one of the kept items has. -/
def withKeysOf (kept : List α) : List α := as.filter fun a => (kept.map key).contains (key a)

/-- Items of one key have one verdict. -/
def KeyDecides : Prop := ∀ a ∈ as, ∀ b ∈ as, key a = key b → verdict a = verdict b

variable {key verdict as}

lemma mem_unflagged {a : α} :
    a ∈ unflagged key verdict as ↔ a ∈ as ∧ ∀ b ∈ as, key b = key a → verdict b = false := by
  simp only [unflagged, mem_filter, Bool.not_eq_true', contains_eq_mem, decide_eq_false_iff_not,
    mem_map, not_exists, not_and]
  refine and_congr_right fun _ => ?_
  constructor
  · intro h b hb heq
    exact Bool.eq_false_iff.mpr fun hverd => h b ⟨hb, hverd⟩ heq
  intro h b hb heq
  rw [h b hb.1 heq] at hb
  cases hb.2

omit [DecidableEq κ] in
/-- A flagged item and an item of its key that is not. -/
lemma exists_dropped (h : ¬ KeyDecides key verdict as) :
    ∃ a ∈ as, ∃ b ∈ as, key b = key a ∧ verdict a = false ∧ verdict b := by
  simp only [KeyDecides, not_forall] at h
  obtain ⟨a, ha, b, hb, heq, hne⟩ := h
  cases hverd : verdict a with
  | false =>
    refine ⟨a, ha, b, hb, heq.symm, hverd, ?_⟩
    rw [hverd] at hne
    exact Bool.eq_true_of_not_eq_false fun hb => hne hb.symm
  | true =>
    refine ⟨b, hb, a, ha, heq, ?_, hverd⟩
    rw [hverd] at hne
    exact Bool.eq_false_iff.mpr fun hb => hne hb.symm

lemma unflagged_of_keyDecides (h : KeyDecides key verdict as) :
    unflagged key verdict as = as.filter fun a => !verdict a := by
  apply filter_congr
  intro a ha
  rw [Bool.eq_iff_iff, Bool.not_eq_true', Bool.not_eq_true', contains_eq_mem, decide_eq_false_iff_not]
  constructor
  · intro hnone
    by_contra hverd
    exact hnone (mem_map_of_mem (mem_filter.mpr ⟨ha, Bool.eq_true_of_not_eq_false hverd⟩))
  intro hverd hmem
  obtain ⟨b, hb, heq⟩ := mem_map.mp hmem
  rw [mem_filter] at hb
  rw [← h b hb.1 a ha heq, hb.2] at hverd
  cases hverd

/-- Every item is on exactly one side just when no key has two verdicts. -/
lemma exactly_one_iff :
    (∀ a ∈ as, Xor (a ∈ unflagged key verdict as) (a ∈ as.filter verdict)) ↔ KeyDecides key verdict as := by
  constructor
  · intro h
    by_contra hmixed
    obtain ⟨a, ha, b, hb, heq, hclear, hflag⟩ := exists_dropped hmixed
    rcases h a ha with ⟨hleft, -⟩ | ⟨hright, -⟩
    · rw [(mem_unflagged.mp hleft).2 b hb heq] at hflag
      cases hflag
    · rw [(mem_filter.mp hright).2] at hclear
      cases hclear
  · intro h a ha
    rw [unflagged_of_keyDecides h, mem_filter, mem_filter]
    cases hverd : verdict a with
    | true => exact Or.inr ⟨⟨ha, rfl⟩, fun hleft => by cases hleft.2⟩
    | false => exact Or.inl ⟨⟨ha, rfl⟩, fun hright => by cases hright.2⟩

lemma unflagged_sublist : (unflagged key verdict as).Sublist (as.filter fun a => !verdict a) := by
  have hclear : unflagged key verdict as = (as.filter fun a => !verdict a).filter fun a =>
      !((as.filter verdict).map key).contains (key a) := by
    rw [filter_filter]
    apply filter_congr
    intro a ha
    cases hverd : verdict a with
    | false => simp
    | true =>
      have hkey : key a ∈ (as.filter verdict).map key := mem_map_of_mem (mem_filter.mpr ⟨ha, hverd⟩)
      rw [contains_iff_mem.mpr hkey]
      rfl
  rw [hclear]
  exact filter_sublist

/-- The keys of both sides together are the keys of all items, each as often, just when no key has two
verdicts. -/
lemma perm_keys_iff : ((unflagged key verdict as).map key ++ (as.filter verdict).map key).Perm (as.map key) ↔
      KeyDecides key verdict as := by
  rw [← map_append]
  constructor
  · intro hperm
    by_contra hmixed
    obtain ⟨a, ha, b, hb, heq, hclear, hflag⟩ := exists_dropped hmixed
    have hsub : (unflagged key verdict as).Sublist (as.filter fun a => !verdict a) := unflagged_sublist
    have hlen := hperm.length_eq
    have hsplit := (filter_append_perm verdict as).length_eq
    simp only [length_map, length_append] at hlen hsplit
    have hall := hsub.eq_of_length (by omega)
    have hmem : a ∈ unflagged key verdict as := by
      rw [hall]
      exact mem_filter.mpr ⟨ha, by rw [hclear]; rfl⟩
    rw [(mem_unflagged.mp hmem).2 b hb heq] at hflag
    cases hflag
  · intro h
    rw [unflagged_of_keyDecides h]
    apply List.Perm.map
    exact perm_append_comm.trans (filter_append_perm verdict as)

/-- Selecting by the keys of the items without a verdict gives them back. -/
lemma withKeysOf_unflagged : withKeysOf key as (unflagged key verdict as) = unflagged key verdict as := by
  apply filter_congr
  intro a ha
  rw [Bool.eq_iff_iff, contains_eq_mem, decide_eq_true_iff]
  have hiff : (!((as.filter verdict).map key).contains (key a)) = true ↔ a ∈ unflagged key verdict as := by
    rw [unflagged, mem_filter]
    exact (and_iff_right ha).symm
  rw [hiff]
  constructor
  · intro hmem
    obtain ⟨b, hb, heq⟩ := mem_map.mp hmem
    refine mem_unflagged.mpr ⟨ha, fun other hother hkey => ?_⟩
    exact (mem_unflagged.mp hb).2 other hother (hkey.trans heq.symm)
  · exact fun hmem => mem_map_of_mem hmem

/-- Selecting by the keys of the flagged items gives them back just when no key has two verdicts. -/
lemma withKeysOf_flagged_iff :
    withKeysOf key as (as.filter verdict) = as.filter verdict ↔ KeyDecides key verdict as := by
  constructor
  · intro h
    by_contra hmixed
    obtain ⟨a, ha, b, hb, heq, hclear, hflag⟩ := exists_dropped hmixed
    have hmem : a ∈ withKeysOf key as (as.filter verdict) := by
      refine mem_filter.mpr ⟨ha, contains_iff_mem.mpr ?_⟩
      exact heq ▸ mem_map_of_mem (mem_filter.mpr ⟨hb, hflag⟩)
    rw [h, mem_filter, hclear] at hmem
    cases hmem.2
  · intro h
    apply filter_congr
    intro a ha
    rw [Bool.eq_iff_iff, contains_eq_mem, decide_eq_true_iff]
    constructor
    · intro hmem
      obtain ⟨b, hb, heq⟩ := mem_map.mp hmem
      rw [← h b (mem_filter.mp hb).1 a ha heq]
      exact (mem_filter.mp hb).2
    · exact fun hverd => mem_map_of_mem (mem_filter.mpr ⟨ha, hverd⟩)

end Keyed

/-- The verdict of the classification on one intent. -/
def verdictOf (c : Collation) (base server : List Path) (intent : DirectoryProposalIntent) : Bool :=
  isConflicting (directoryIntentsBetweenSnapshots c base server) server intent

/-- All generations of an identifier have one verdict. -/
def GenerationsAgree (c : Collation) (base server : List Path) (intents : List DirectoryProposalIntent) : Prop :=
  KeyDecides DirectoryProposalIntent.intentId (verdictOf c base server) intents

instance (c : Collation) (base server : List Path) (intents : List DirectoryProposalIntent) :
    Decidable (GenerationsAgree c base server intents) :=
  inferInstanceAs (Decidable (∀ a ∈ intents, ∀ b ∈ intents, a.intentId = b.intentId → _ = _))

/-- What the validator guarantees of the identities in a proposal. -/
def DistinctIdentities (intents : List DirectoryProposalIntent) : Prop :=
  (intents.map fun intent => (intent.intentId, intent.generation)).Nodup

instance (intents : List DirectoryProposalIntent) : Decidable (DistinctIdentities intents) :=
  inferInstanceAs (Decidable (List.Nodup _))

/-- A plan as a record whose entries need not have their types: such an entry, or such an item of an array, is
`none`. -/
structure PlanRecord where
  proposal : Option DirectoryProposal
  requestSha256 : Option String
  (baseExplicitDirs serverExplicitDirs : Option (List (Option Path)))
  (cleanIntentIds conflictingIntentIds : Option (List (Option String)))
  affectedRoots : Option (List (Option Path))
  expectedEventSeq : Option Nat

def storedDirectoryPlan (plan : Option DirectoryMergePlan) : Option PlanRecord :=
  plan.map fun plan =>
    { proposal := some plan.proposal
      requestSha256 := some plan.requestSha256
      baseExplicitDirs := some (plan.baseExplicitDirs.map some)
      serverExplicitDirs := some (plan.serverExplicitDirs.map some)
      cleanIntentIds := some (plan.cleanIntents.map fun intent => some intent.intentId)
      conflictingIntentIds := some (plan.conflictingIntents.map fun intent => some intent.intentId)
      affectedRoots := some (plan.affectedRoots.map some)
      expectedEventSeq := some plan.expectedEventSeq }

def recoveredDirectoryPlan (value : Option PlanRecord) : Option DirectoryMergePlan := do
  let record ← value
  let proposal ← record.proposal
  let requestSha256 ← record.requestSha256
  let baseExplicitDirs ← record.baseExplicitDirs
  let serverExplicitDirs ← record.serverExplicitDirs
  let cleanIntentIds ← record.cleanIntentIds
  let conflictingIntentIds ← record.conflictingIntentIds
  let affectedRoots ← record.affectedRoots
  let expectedEventSeq ← record.expectedEventSeq
  if !isSafeInteger expectedEventSeq then none
  let cleanIds := cleanIntentIds.filterMap id
  let conflictingIds := conflictingIntentIds.filterMap id
  return {
    proposal, requestSha256
    baseExplicitDirs := baseExplicitDirs.filterMap id
    serverExplicitDirs := serverExplicitDirs.filterMap id
    cleanIntents := proposal.intents.filter fun intent => cleanIds.contains intent.intentId
    conflictingIntents := proposal.intents.filter fun intent => conflictingIds.contains intent.intentId
    affectedRoots := affectedRoots.filterMap id
    expectedEventSeq }

/-- Each intent of the proposal is in exactly one of the two lists. -/
def Partitions (plan : DirectoryMergePlan) : Prop :=
  ∀ intent ∈ plan.proposal.intents, Xor (intent ∈ plan.cleanIntents) (intent ∈ plan.conflictingIntents)

/-- The identifiers of all intents, generation by generation, are those of the two lists together. -/
def PartitionsIds (context : DirectoryConflictContext) : Prop :=
  (context.cleanIntentIds ++ context.conflictingIntentIds).Perm
    (context.proposal.intents.map DirectoryProposalIntent.intentId)

/-- The stored plan is recovered with the same clean and conflicting intents. -/
def Recovers (plan : DirectoryMergePlan) : Prop :=
  ∃ recovered, recoveredDirectoryPlan (storedDirectoryPlan (some plan)) = some recovered ∧
    recovered.cleanIntents = plan.cleanIntents ∧ recovered.conflictingIntents = plan.conflictingIntents

section Plans

variable {c : Collation} {server : List Path} {intents : List DirectoryProposalIntent}

/-- What is recovered of a stored plan: the sides are the intents with the identifiers of the sides. -/
lemma recovered_stored (plan : DirectoryMergePlan) : recoveredDirectoryPlan (storedDirectoryPlan (some plan)) =
      if isSafeInteger plan.expectedEventSeq then some { plan with
        cleanIntents := withKeysOf DirectoryProposalIntent.intentId plan.proposal.intents plan.cleanIntents
        conflictingIntents :=
          withKeysOf DirectoryProposalIntent.intentId plan.proposal.intents plan.conflictingIntents }
      else none := by
  have hids : ∀ intents : List DirectoryProposalIntent,
      (intents.map fun intent => some intent.intentId).filterMap id =
        intents.map DirectoryProposalIntent.intentId := by
    intro intents
    simp
  have hpaths : ∀ paths : List Path, (paths.map some).filterMap id = paths := by
    intro paths
    simp
  simp only [recoveredDirectoryPlan, storedDirectoryPlan, Option.map_some, Option.bind_eq_bind,
    Option.bind_some, hids,
    hpaths]
  cases isSafeInteger plan.expectedEventSeq with
  | true | false => rfl

variable {services : Services} {db : MetadataDb} {vaultId deviceId : String} {proposal : DirectoryProposal}
  {plan : DirectoryMergePlan} {device : DeviceRow} {lastApplied : List Path}

/-- The plan of a classified proposal comes from the acknowledged baseline of the device. -/
lemma eq_planFor (h : classifyDirectoryProposal services db vaultId deviceId proposal = .ok plan)
    (hdev : requireDevice db deviceId = .ok device) (hbase : device.lastAppliedExplicitDirs = some lastApplied) :
    plan = planFor services db vaultId proposal lastApplied := by
  obtain ⟨found, applied, hfound, happl, hplan⟩ := classifyDirectoryProposal_ok h
  cases hfound.symm.trans hdev
  cases happl.symm.trans hbase
  exact hplan

lemma partitions_iff : Partitions (planFor services db vaultId proposal lastApplied) ↔
    GenerationsAgree services.collation (sort lastApplied) (sort (db.explicitDirs vaultId)) proposal.intents :=
  exactly_one_iff

lemma recovers_iff : Recovers (planFor services db vaultId proposal lastApplied) ↔
    isSafeInteger (db.lastDirectoryEventSeq vaultId) ∧
      GenerationsAgree services.collation (sort lastApplied) (sort (db.explicitDirs vaultId)) proposal.intents := by
  rw [Recovers, recovered_stored]
  change (∃ recovered,
    (if isSafeInteger (db.lastDirectoryEventSeq vaultId) = true then _ else none) = some recovered ∧
    _) ↔ _
  by_cases hsafe : isSafeInteger (db.lastDirectoryEventSeq vaultId) = true
  · rw [if_pos hsafe]
    constructor
    · rintro ⟨recovered, hrec, -, hsame⟩
      cases hrec
      exact ⟨hsafe, withKeysOf_flagged_iff.mp hsame⟩
    · rintro ⟨-, hagree⟩
      exact ⟨_, rfl, withKeysOf_unflagged, withKeysOf_flagged_iff.mpr hagree⟩
  · rw [if_neg hsafe]
    constructor
    · rintro ⟨recovered, hrec, -⟩
      cases hrec
    · exact fun hboth => absurd hboth.1 hsafe

lemma partitionsIds_iff (context : DirectoryConflictContext) (expectedEventSeq : Nat) :
    PartitionsIds (reclassifyDirectoryContext c context server expectedEventSeq) ↔
      GenerationsAgree c context.baseExplicitDirs server context.proposal.intents :=
  perm_keys_iff

end Plans

/-- A classified proposal, a reclassified context and a recovered plan keep every intent on exactly one side just
when no identifier has generations of both verdicts. -/
theorem partition_iff {services : Services} {db : MetadataDb} {vaultId deviceId : String}
    {proposal : DirectoryProposal}
    {plan : DirectoryMergePlan} {device : DeviceRow} {lastApplied : List Path}
    (h : classifyDirectoryProposal services db vaultId deviceId proposal = .ok plan)
    (hdevice : requireDevice db deviceId = .ok device) (hbase : device.lastAppliedExplicitDirs = some lastApplied)
    (context : DirectoryConflictContext) (server : List Path) (expectedEventSeq : Nat) : (Partitions plan ↔
      GenerationsAgree services.collation (sort lastApplied) (sort (db.explicitDirs vaultId)) proposal.intents) ∧
    (PartitionsIds (reclassifyDirectoryContext services.collation context server expectedEventSeq) ↔
      GenerationsAgree services.collation context.baseExplicitDirs server context.proposal.intents) ∧
    (Recovers plan ↔ isSafeInteger (db.lastDirectoryEventSeq vaultId) = true ∧
      GenerationsAgree services.collation (sort lastApplied) (sort (db.explicitDirs vaultId)) proposal.intents) := by
  obtain rfl := eq_planFor h hdevice hbase
  exact ⟨partitions_iff, partitionsIds_iff context expectedEventSeq, recovers_iff⟩

def acknowledgedMain : String := "0000000000000000000000000000000000000001"

/-- The device knows `a`, which the server has deleted meanwhile. -/
def deletedDb : MetadataDb where
  devices := [⟨"device", "vault", none, some acknowledgedMain, 1, some [⟨"a"⟩]⟩]
  directoryStateByVault := fun _ => some ⟨[], 0, 2⟩

/-- The device creates `a/b`, and `c` in the next generation of the same intent. -/
def twoGenerations : DirectoryProposal where
  proposalId := "dirprop_0000000000000000000000000000000000000000000000000000000000000001"
  baseMain := some acknowledgedMain
  baseEventSeq := 1
  intents :=
    [{ op := .create, path := ⟨"a/b"⟩, intentId := "dir_1_1_000000000000", generation := 1, provenance := .localV2 },
      { op := .create, path := ⟨"c"⟩, intentId := "dir_1_1_000000000000", generation := 2, provenance := .localV2 }]

theorem partition_iff_recreated : (Partitions (planFor sampleServices sampleDb "vault" sampleProposal [⟨"a"⟩]) ↔
      GenerationsAgree codePointCollation (sort [⟨"a"⟩])
        (sort (sampleDb.explicitDirs "vault")) sampleProposal.intents) ∧
    (PartitionsIds (reclassifyDirectoryContext codePointCollation (directoryConflictContext
        (planFor sampleServices sampleDb "vault" sampleProposal [⟨"a"⟩])) [] 3) ↔
      GenerationsAgree codePointCollation (sort [⟨"a"⟩]) [] sampleProposal.intents) ∧
    (Recovers (planFor sampleServices sampleDb "vault" sampleProposal [⟨"a"⟩]) ↔
      isSafeInteger (sampleDb.lastDirectoryEventSeq "vault") = true ∧
        GenerationsAgree codePointCollation (sort [⟨"a"⟩]) (sort (sampleDb.explicitDirs "vault"))
          sampleProposal.intents) := by
  have hplan : classifyDirectoryProposal sampleServices sampleDb "vault" "device" sampleProposal
      = .ok (planFor sampleServices sampleDb "vault" sampleProposal [⟨"a"⟩]) := by decide
  exact partition_iff hplan rfl rfl _ _ _

/-- The second generation is neither clean nor conflicting. -/
theorem dropped_generation :
    ¬ ∀ (services : Services) (db : MetadataDb) (vaultId deviceId : String) (proposal : DirectoryProposal)
      (plan : DirectoryMergePlan), DistinctIdentities proposal.intents →
      classifyDirectoryProposal services db vaultId deviceId proposal = .ok plan → Partitions plan := by
  intro hclaim
  have hplan : classifyDirectoryProposal sampleServices deletedDb "vault" "device" twoGenerations
      = .ok (planFor sampleServices deletedDb "vault" twoGenerations [⟨"a"⟩]) := by decide
  have hagree := partitions_iff.mp (hclaim _ _ _ _ _ _ (by decide) hplan)
  revert hagree
  decide

end ProposalPartition
