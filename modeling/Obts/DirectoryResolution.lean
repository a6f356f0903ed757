import Obts.DirectoryProposals

/-!
# Resolving directory conflicts

A directory conflict keeps the proposal, the snapshots it was compared with, the clean
intents and the affected roots. Resolving it for the server drops the conflicting intents,
keeps the clean ones, and reasserts the server's paths that overlap an affected root. The
main theorem says exactly when the outcome is the server's state around the affected roots
and the three-way merge everywhere else.
-/
namespace Metadata.DirectoryConflictContext

open SlashPath DirectoryIntents

variable (context : DirectoryConflictContext)

/-- The device's snapshot after its whole proposal. -/
def deviceExplicitDirs : List Path :=
  applyDirectoryIntentsToSnapshot context.baseExplicitDirs context.proposal.directoryIntents

def cleanIntents : List DirectoryIntent :=
  (context.proposal.intents.filter fun intent =>
    context.cleanIntentIds.contains intent.intentId).map (·.toDirectoryIntent)

/-- The net intents back to the server's state, at paths that overlap an affected root. -/
def serverReassertions (c : Collation) (context : DirectoryConflictContext) : List DirectoryIntent :=
  (directoryIntentsBetweenSnapshots c context.deviceExplicitDirs
    context.serverExplicitDirs).filter fun intent =>
      context.affectedRoots.any fun root => pathsOverlap root intent.path

end Metadata.DirectoryConflictContext

namespace DirectoryResolution

open ForestEdits SlashPath DirectoryIntents Metadata DirectoryProposals

def directoryConflictContext (plan : DirectoryMergePlan) : DirectoryConflictContext where
  proposal := plan.proposal
  baseExplicitDirs := plan.baseExplicitDirs
  serverExplicitDirs := plan.serverExplicitDirs
  cleanIntentIds := plan.cleanIntents.map (·.intentId)
  conflictingIntentIds := plan.conflictingIntents.map (·.intentId)
  affectedRoots := plan.affectedRoots
  expectedEventSeq := plan.expectedEventSeq

def reclassifyDirectoryContext (c : Collation) (context : DirectoryConflictContext)
    (serverExplicitDirs : List Path) (expectedEventSeq : Nat) : DirectoryConflictContext :=
  let base := context.baseExplicitDirs
  let intents := context.proposal.intents
  { context with
    serverExplicitDirs := sort serverExplicitDirs
    cleanIntentIds := (cleanOf c base serverExplicitDirs intents).map (·.intentId)
    conflictingIntentIds := (conflictingOf c base serverExplicitDirs intents).map (·.intentId)
    affectedRoots := affectedRootsOf c base serverExplicitDirs intents
    expectedEventSeq }

def resolvedConflictDirectoryIntents (c : Collation) (context : Option DirectoryConflictContext)
    (resolutionKind : ConflictResolutionKind) : List DirectoryIntent :=
  match context with
  | none => []
  | some context =>
    if resolutionKind = .useDevice then context.proposal.directoryIntents
    else compactDirectoryIntents c (context.cleanIntents ++ context.serverReassertions c)

section KeepServer

variable (c : Collation) (context : DirectoryConflictContext)

/-- The path overlaps an affected root. -/
def Contested (q : Path) : Prop := ∃ root ∈ context.affectedRoots, Overlap root q

/-- The path lies at or below a contested path that only the device's outcome has. -/
def BelowDeviceOnly (p : Path) : Prop :=
  ∃ d ∈ context.deviceExplicitDirs, d ∉ context.serverExplicitDirs ∧ Contested context d ∧ d ≤ p

/-- A contested path that only the server has. -/
def ServerOnly (p : Path) : Prop :=
  p ∈ context.serverExplicitDirs ∧ p ∉ context.deviceExplicitDirs ∧ Contested context p

variable {c context} {q p : Path} {f : DirectoryIntent}

lemma Contested.mono (h : Contested context p) (hqp : q ≤ p) : Contested context q := by
  obtain ⟨root, hroot, hover⟩ := h
  exact ⟨root, hroot, (Overlap.mono_left hover.symm hqp).symm⟩

lemma any_pathsOverlap_iff : (context.affectedRoots.any fun root => pathsOverlap root q) ↔ Contested context q := by
  simp [Contested, pathsOverlap_iff]

lemma mem_serverReassertions : f ∈ context.serverReassertions c ↔
      ((f.op = .delete ∧ f.path ∈ deleted context.deviceExplicitDirs context.serverExplicitDirs) ∨
        (f.op = .create ∧ f.path ∈ created context.deviceExplicitDirs context.serverExplicitDirs)) ∧
        Contested context f.path := by
  rw [DirectoryConflictContext.serverReassertions, List.mem_filter, any_pathsOverlap_iff,
    mem_directoryIntentsBetweenSnapshots]

lemma create_mem_serverReassertions : ⟨.create, p⟩ ∈ context.serverReassertions c ↔ ServerOnly context p := by
  simp [mem_serverReassertions, mem_created, ServerOnly, and_assoc]

/-- The reasserted deletes reach exactly the paths below a device-only path. -/
lemma exists_delete_mem_serverReassertions :
    (∃ d, ⟨.delete, d⟩ ∈ context.serverReassertions c ∧ d ≤ p) ↔ BelowDeviceOnly context p := by
  constructor
  · rintro ⟨d, hd, hdp⟩
    obtain ⟨⟨_, hdel⟩ | ⟨h, _⟩, hcont⟩ := mem_serverReassertions.mp hd
    · exact ⟨d, (mem_deleted.mp hdel).1, (mem_deleted.mp hdel).2.1, hcont, hdp⟩
    · cases h
  · rintro ⟨x, hx, hxs, hcont, hxp⟩
    obtain ⟨d, hd, hdx⟩ := exists_mem_deleted_le hx hxs
    exact ⟨d, mem_serverReassertions.mpr ⟨.inl ⟨rfl, hd⟩, hcont.mono hdx⟩, hdx.trans hxp⟩

/-- A clean intent survives its own compaction and the reassertions, or a reassertion
stands. -/
lemma mem_resolved_keepServer : f ∈ resolvedConflictDirectoryIntents c (some context) .keepServer ↔
      f ∈ context.serverReassertions c ∨ (f ∈ compactDirectoryIntents c context.cleanIntents ∧
          ∀ g ∈ context.serverReassertions c, ¬ Overrides g.edit f.edit) := by
  have hfirst : AncestorsFirst (edits (context.serverReassertions c)) :=
    (ancestorsFirst_compactDirectoryIntents c _).sublist (List.filter_sublist.map _)
  have hedits : edits (context.cleanIntents ++ context.serverReassertions c)
      = edits context.cleanIntents ++ edits (context.serverReassertions c) := by
    simp [edits]
  have hmem : f.edit ∈ edits (context.serverReassertions c) ↔
      f ∈ context.serverReassertions c := by
    rw [edits, List.mem_map_of_injective DirectoryIntent.edit_injective]
  have hall : (∀ g ∈ edits (context.serverReassertions c), ¬ Overrides g f.edit) ↔
      ∀ g ∈ context.serverReassertions c, ¬ Overrides g.edit f.edit := by
    simp [edits]
  rw [resolvedConflictDirectoryIntents, if_neg (by decide), mem_compactDirectoryIntents, hedits,
    survives_append, hfirst.survives_iff_mem, hmem, hall, ← mem_compactDirectoryIntents]

lemma exists_create_resolved_iff :
    (∃ p, ⟨.create, p⟩ ∈ resolvedConflictDirectoryIntents c (some context) .keepServer ∧ q ≤ p) ↔
      (∃ p, ServerOnly context p ∧ q ≤ p) ∨ ∃ p, ⟨.create, p⟩ ∈ compactDirectoryIntents c context.cleanIntents ∧
          ¬ BelowDeviceOnly context p ∧ q ≤ p := by
  constructor
  · rintro ⟨p, hp, hqp⟩
    rcases mem_resolved_keepServer.mp hp with hreas | ⟨hclean, hover⟩
    · exact .inl ⟨p, create_mem_serverReassertions.mp hreas, hqp⟩
    refine .inr ⟨p, hclean, fun hbelow => ?_, hqp⟩
    obtain ⟨d, hd, hdp⟩ := (exists_delete_mem_serverReassertions (c := c)).mpr hbelow
    exact hover _ hd (.inr ⟨rfl, hdp⟩)
  · rintro (⟨p, hp, hqp⟩ | ⟨p, hclean, hbelow, hqp⟩)
    · exact ⟨p, mem_resolved_keepServer.mpr (.inl (create_mem_serverReassertions.mpr hp)), hqp⟩
    refine ⟨p, mem_resolved_keepServer.mpr ?_, hqp⟩
    by_cases hmem : ⟨.create, p⟩ ∈ context.serverReassertions c
    · exact .inl hmem
    refine .inr ⟨hclean, ?_⟩
    rintro ⟨op, g⟩ hg (heq | ⟨hop, hle⟩)
    · obtain rfl : g = p := heq
      cases op with
      | create => exact hmem hg
      | delete => exact hbelow (exists_delete_mem_serverReassertions.mp ⟨g, hg, le_rfl⟩)
    · obtain rfl : op = .delete := hop
      exact hbelow (exists_delete_mem_serverReassertions.mp ⟨g, hg, hle⟩)

lemma exists_delete_resolved_iff :
    (∃ p, ⟨.delete, p⟩ ∈ resolvedConflictDirectoryIntents c (some context) .keepServer ∧ p ≤ q) ↔
      BelowDeviceOnly context q ∨ ∃ p, ⟨.delete, p⟩ ∈ compactDirectoryIntents c context.cleanIntents ∧
          ¬ ServerOnly context p ∧ p ≤ q := by
  constructor
  · rintro ⟨p, hp, hpq⟩
    rcases mem_resolved_keepServer.mp hp with hreas | ⟨hclean, hover⟩
    · exact .inl (exists_delete_mem_serverReassertions.mp ⟨p, hreas, hpq⟩)
    · refine .inr ⟨p, hclean, fun honly => ?_, hpq⟩
      exact hover _ (create_mem_serverReassertions.mpr honly) (.inl rfl)
  · intro h
    by_cases hbelow : BelowDeviceOnly context q
    · obtain ⟨d, hd, hdq⟩ := (exists_delete_mem_serverReassertions (c := c)).mpr hbelow
      exact ⟨d, mem_resolved_keepServer.mpr (.inl hd), hdq⟩
    obtain ⟨p, hclean, honly, hpq⟩ := h.resolve_left hbelow
    refine ⟨p, mem_resolved_keepServer.mpr (.inr ⟨hclean, ?_⟩), hpq⟩
    -- a reasserted delete at or above `p` would reach `q` as well
    have habove : ∀ g, ⟨.delete, g⟩ ∈ context.serverReassertions c → ¬ g ≤ p := fun g hg hle =>
      hbelow (exists_delete_mem_serverReassertions.mp ⟨g, hg, hle.trans hpq⟩)
    rintro ⟨op, g⟩ hg (heq | ⟨hop, hle⟩)
    · obtain rfl : g = p := heq
      cases op with
      | create => exact honly (create_mem_serverReassertions.mp hg)
      | delete => exact habove g hg le_rfl
    · obtain rfl : op = .delete := hop
      exact habove g hg hle

/-- The state after keeping the server's side, path by path. -/
lemma mem_run_keepServer : q ∈ run (dirs context.serverExplicitDirs)
        (edits (resolvedConflictDirectoryIntents c (some context) .keepServer)) ↔
      ((∃ p, ServerOnly context p ∧ q ≤ p) ∨ ∃ p, ⟨.create, p⟩ ∈ compactDirectoryIntents c context.cleanIntents ∧
          ¬ BelowDeviceOnly context p ∧ q ≤ p) ∨ (q ∈ context.serverExplicitDirs ∧ ¬ BelowDeviceOnly context q ∧
        ∀ p, ⟨.delete, p⟩ ∈ compactDirectoryIntents c context.cleanIntents → p ≤ q → ServerOnly context p) := by
  have hfirst : AncestorsFirst
      (edits (resolvedConflictDirectoryIntents c (some context) .keepServer)) := by
    exact ancestorsFirst_compactDirectoryIntents c _
  have hcr : (∃ e ∈ edits (resolvedConflictDirectoryIntents c (some context) .keepServer),
      e.op = .create ∧ q ≤ e.node) ↔
      ∃ p, ⟨.create, p⟩ ∈ resolvedConflictDirectoryIntents c (some context) .keepServer ∧ q ≤ p := by
    constructor
    · rintro ⟨e, he, hop, hq⟩
      obtain ⟨⟨op, p⟩, hf, rfl⟩ := List.mem_map.mp he
      obtain rfl : op = .create := hop
      exact ⟨p, hf, hq⟩
    · rintro ⟨p, hp, hq⟩
      exact ⟨_, List.mem_map_of_mem hp, rfl, hq⟩
  have hdel : (∀ e ∈ edits (resolvedConflictDirectoryIntents c (some context) .keepServer),
      e.op = .delete → ¬ e.node ≤ q) ↔
      ¬ ∃ p, ⟨.delete, p⟩ ∈ resolvedConflictDirectoryIntents c (some context) .keepServer ∧
        p ≤ q := by
    constructor
    · rintro h ⟨p, hp, hpq⟩
      exact h _ (List.mem_map_of_mem hp) rfl hpq
    intro h e he hop hle
    obtain ⟨⟨op, p⟩, hf, rfl⟩ := List.mem_map.mp he
    obtain rfl : op = .delete := hop
    exact h ⟨p, hf, hle⟩
  rw [mem_run_of_ancestorsFirst hfirst, hcr, hdel, exists_create_resolved_iff,
    exists_delete_resolved_iff, not_or, mem_dirs]
  refine or_congr_right (and_congr_right fun _ => and_congr_right fun _ => ?_)
  constructor
  · intro h p hp hpq
    by_contra honly
    exact h ⟨p, hp, honly, hpq⟩
  · rintro h ⟨p, hp, honly, hpq⟩
    exact honly (h p hp hpq)

lemma ServerOnly.mem_of_le (hsrv : PrefixClosed context.serverExplicitDirs)
    (h : ServerOnly context p) (hqp : q ≤ p) : q ∈ context.serverExplicitDirs :=
  hsrv hqp h.1

lemma BelowDeviceOnly.not_mem (hsrv : PrefixClosed context.serverExplicitDirs)
    (h : BelowDeviceOnly context q) : q ∉ context.serverExplicitDirs := by
  obtain ⟨d, _, hds, _, hdq⟩ := h
  exact fun hq => hds (hsrv hdq hq)

lemma BelowDeviceOnly.mono (h : BelowDeviceOnly context p) (hpq : p ≤ q) : BelowDeviceOnly context q := by
  obtain ⟨d, hd, hds, hcont, hdp⟩ := h
  exact ⟨d, hd, hds, hcont, hdp.trans hpq⟩

/-- Away from the affected roots a device-only path below `q` would make `q` contested. -/
lemma BelowDeviceOnly.of_not_contested (hq : ¬ Contested context q)
    (h : BelowDeviceOnly context p) (hqp : q ≤ p) : BelowDeviceOnly context q := by
  obtain ⟨d, hd, hds, hcont, hdp⟩ := h
  rcases ForestOrder.le_or_le_of_le hdp hqp with hdq | hqd
  · exact ⟨d, hd, hds, hcont, hdq⟩
  · exact absurd (hcont.mono hqd) hq

lemma not_serverOnly_of_not_contested (hq : ¬ Contested context q) (hqp : q ≤ p) : ¬ ServerOnly context p :=
  fun h => hq (h.2.2.mono hqp)

variable (c context)

/-- The server's state where a path is contested, and the three-way merge elsewhere. -/
def KeepServerOutcome (resolved : List Path) : Prop :=
  ∀ q, (Contested context q → (q ∈ resolved ↔ q ∈ context.serverExplicitDirs)) ∧ (¬ Contested context q →
      (¬ (q ∈ context.deviceExplicitDirs ↔ q ∈ context.baseExplicitDirs) →
        (q ∈ resolved ↔ q ∈ context.deviceExplicitDirs)) ∧
      ((q ∈ context.deviceExplicitDirs ↔ q ∈ context.baseExplicitDirs) →
        (q ∈ resolved ↔ q ∈ context.serverExplicitDirs)))

/-- A clean create at or below `q` is left by the compaction of the clean intents. -/
def CleanCreateBelow (q : Path) : Prop :=
  ∃ p, ⟨.create, p⟩ ∈ compactDirectoryIntents c context.cleanIntents ∧ q ≤ p

/-- A clean delete at or above `q` is left by the compaction of the clean intents, and its
path is none that the server alone has. -/
def CleanDeleteAbove (q : Path) : Prop :=
  ∃ p, ⟨.delete, p⟩ ∈ compactDirectoryIntents c context.cleanIntents ∧ ¬ ServerOnly context p ∧ p ≤ q

/-- When keeping the server's side is right, in terms of the clean intents alone. -/
structure KeepServerSafe : Prop where
  /-- A contested path of both sides below a clean delete is recreated. -/
  kept : ∀ q, Contested context q → q ∈ context.serverExplicitDirs →
    q ∈ context.deviceExplicitDirs → CleanDeleteAbove c context q → (∃ p, ServerOnly context p ∧ q ≤ p) ∨
        ∃ p, ⟨.create, p⟩ ∈ compactDirectoryIntents c context.cleanIntents ∧ ¬ BelowDeviceOnly context p ∧ q ≤ p
  /-- No clean create brings back a contested path that neither side has. -/
  absent : ∀ q, Contested context q → q ∉ context.serverExplicitDirs →
    q ∉ context.deviceExplicitDirs → ¬ BelowDeviceOnly context q → ¬ CleanCreateBelow c context q
  /-- A path that the device added elsewhere is created, or stands on the server. -/
  added : ∀ q, ¬ Contested context q → q ∈ context.deviceExplicitDirs →
    q ∉ context.baseExplicitDirs → ¬ BelowDeviceOnly context q ∧ (CleanCreateBelow c context q ∨
        (q ∈ context.serverExplicitDirs ∧ ¬ CleanDeleteAbove c context q))
  /-- A path that the device removed elsewhere is deleted and not created. -/
  removed : ∀ q, ¬ Contested context q → q ∉ context.deviceExplicitDirs → q ∈ context.baseExplicitDirs →
      (CleanCreateBelow c context q → BelowDeviceOnly context q) ∧
        (q ∈ context.serverExplicitDirs → CleanDeleteAbove c context q)
  /-- A path that the device left alone elsewhere is deleted or created only in vain. -/
  unchanged : ∀ q, ¬ Contested context q → (q ∈ context.deviceExplicitDirs ↔ q ∈ context.baseExplicitDirs) →
      (q ∈ context.serverExplicitDirs → CleanDeleteAbove c context q → CleanCreateBelow c context q) ∧
      (q ∉ context.serverExplicitDirs → CleanCreateBelow c context q → BelowDeviceOnly context q)

variable {c context}

lemma not_cleanDeleteAbove_iff : ¬ CleanDeleteAbove c context q ↔
      ∀ p, ⟨.delete, p⟩ ∈ compactDirectoryIntents c context.cleanIntents → p ≤ q → ServerOnly context p := by
  constructor
  · intro h p hp hpq
    by_contra honly
    exact h ⟨p, hp, honly, hpq⟩
  · rintro h ⟨p, hp, honly, hpq⟩
    exact honly (h p hp hpq)

/-- Around the affected roots only the paths on which both sides agree are at risk. -/
lemma mem_run_keepServer_of_contested (hsrv : PrefixClosed context.serverExplicitDirs)
    (hdev : PrefixClosed context.deviceExplicitDirs) (hq : Contested context q) :
    (q ∈ run (dirs context.serverExplicitDirs)
        (edits (resolvedConflictDirectoryIntents c (some context) .keepServer)) ↔
      q ∈ context.serverExplicitDirs) ↔ (q ∈ context.serverExplicitDirs → q ∈ context.deviceExplicitDirs →
      CleanDeleteAbove c context q → (∃ p, ServerOnly context p ∧ q ≤ p) ∨
        ∃ p, ⟨.create, p⟩ ∈ compactDirectoryIntents c context.cleanIntents ∧ ¬ BelowDeviceOnly context p ∧ q ≤ p) ∧
    (q ∉ context.serverExplicitDirs → q ∉ context.deviceExplicitDirs →
      ¬ BelowDeviceOnly context q → ¬ CleanCreateBelow c context q) := by
  rw [mem_run_keepServer, ← not_cleanDeleteAbove_iff]
  by_cases hqs : q ∈ context.serverExplicitDirs
  · have hbelow : ¬ BelowDeviceOnly context q := fun h => h.not_mem hsrv hqs
    by_cases hqd : q ∈ context.deviceExplicitDirs
    · simp only [hqs, hqd, hbelow, iff_true, true_and, not_false_eq_true, forall_const,
        not_true_eq_false, false_implies, and_true]
      constructor
      · rintro (hcr | hdel) habove
        · exact hcr
        · exact absurd habove hdel
      intro h
      by_cases habove : CleanDeleteAbove c context q
      · exact .inl (h habove)
      · exact .inr habove
    · have honly : ServerOnly context q := ⟨hqs, hqd, hq⟩
      refine iff_of_true (iff_of_true (.inl (.inl ⟨q, honly, le_rfl⟩)) hqs) ?_
      exact ⟨fun _ h => absurd h hqd, fun h => absurd hqs h⟩
  · have hnone : ¬ ∃ p, ServerOnly context p ∧ q ≤ p := by
      rintro ⟨p, hp, hqp⟩
      exact hqs (hp.mem_of_le hsrv hqp)
    simp only [hqs, hnone, false_or, false_and, or_false, iff_false, false_implies, true_and,
      not_false_eq_true, forall_const]
    by_cases hqd : q ∈ context.deviceExplicitDirs
    · have hbelow : BelowDeviceOnly context q := ⟨q, hqd, hqs, hq, le_rfl⟩
      refine iff_of_true ?_ (fun h => absurd hqd h)
      rintro ⟨p, _, hp, hqp⟩
      exact hp (hbelow.mono hqp)
    constructor
    · rintro h _ hbelow ⟨p, hp, hqp⟩
      refine h ⟨p, hp, ?_, hqp⟩
      rintro ⟨d, hd, hds, hcont, hdp⟩
      rcases ForestOrder.le_or_le_of_le hdp hqp with hdq | hqd'
      · exact hbelow ⟨d, hd, hds, hcont, hdq⟩
      · exact hqd (hdev hqd' hd)
    · rintro h ⟨p, hp, hbelow, hqp⟩
      exact h hqd (fun hq => hbelow (hq.mono hqp)) ⟨p, hp, hqp⟩

/-- Away from the affected roots the clean intents decide alone. -/
lemma mem_run_keepServer_of_not_contested (hq : ¬ Contested context q) : q ∈ run (dirs context.serverExplicitDirs)
        (edits (resolvedConflictDirectoryIntents c (some context) .keepServer)) ↔
      ¬ BelowDeviceOnly context q ∧ (CleanCreateBelow c context q ∨
        (q ∈ context.serverExplicitDirs ∧ ¬ CleanDeleteAbove c context q)) := by
  rw [mem_run_keepServer, ← not_cleanDeleteAbove_iff]
  constructor
  · rintro ((⟨p, hp, hqp⟩ | ⟨p, hp, hbelow, hqp⟩) | ⟨hqs, hbelow, hdel⟩)
    · exact absurd hp (not_serverOnly_of_not_contested hq hqp)
    · exact ⟨fun h => hbelow (h.mono hqp), .inl ⟨p, hp, hqp⟩⟩
    · exact ⟨hbelow, .inr ⟨hqs, hdel⟩⟩
  · rintro ⟨hbelow, ⟨p, hp, hqp⟩ | ⟨hqs, hdel⟩⟩
    · exact .inl (.inr ⟨p, hp, fun h => hbelow (h.of_not_contested hq hqp), hqp⟩)
    · exact .inr ⟨hqs, hbelow, hdel⟩

/-- Keeping the server's side leaves the server's state around the affected roots and the
three-way merge elsewhere exactly when the clean intents are safe. -/
theorem keepServer_outcome_iff_safe (db : MetadataDb) (vaultId : String) (eventSeq now : Nat)
    (hbase : PrefixClosed context.baseExplicitDirs) (hserver : PrefixClosed context.serverExplicitDirs)
    (hstate : dirs (db.explicitDirs vaultId) = dirs context.serverExplicitDirs) :
    KeepServerOutcome context ((applyDirectoryIntents db vaultId
        (resolvedConflictDirectoryIntents c (some context) .keepServer) eventSeq
        now).explicitDirs vaultId) ↔ KeepServerSafe c context := by
  have hdev : PrefixClosed context.deviceExplicitDirs :=
    hbase.applyDirectoryIntentsToSnapshot _
  have hmem : ∀ q, q ∈ (applyDirectoryIntents db vaultId
      (resolvedConflictDirectoryIntents c (some context) .keepServer) eventSeq
        now).explicitDirs vaultId ↔
      q ∈ run (dirs context.serverExplicitDirs)
        (edits (resolvedConflictDirectoryIntents c (some context) .keepServer)) := by
    intro q
    rw [← hstate, ← dirs_applyDirectoryIntents, mem_dirs]
  simp only [KeepServerOutcome, hmem]
  constructor
  · intro h
    refine ⟨fun q hq hqs hqd habove => ?_, fun q hq hqs hqd => ?_, fun q hq hqd hqb => ?_,
      fun q hq hqd hqb => ?_, fun q hq hsame => ?_⟩
    · exact ((mem_run_keepServer_of_contested hserver hdev hq).mp ((h q).1 hq)).1 hqs hqd habove
    · exact ((mem_run_keepServer_of_contested hserver hdev hq).mp ((h q).1 hq)).2 hqs hqd
    · have hdiff : ¬ (q ∈ context.deviceExplicitDirs ↔ q ∈ context.baseExplicitDirs) := by
        simp [hqd, hqb]
      have hrun := (((h q).2 hq).1 hdiff).mpr hqd
      exact (mem_run_keepServer_of_not_contested hq).mp hrun
    · have hdiff : ¬ (q ∈ context.deviceExplicitDirs ↔ q ∈ context.baseExplicitDirs) := by
        simp [hqd, hqb]
      have hrun := mt (((h q).2 hq).1 hdiff).mp hqd
      rw [mem_run_keepServer_of_not_contested hq] at hrun
      refine ⟨fun hcr => ?_, fun hqs => ?_⟩
      · by_contra hbelow
        exact hrun ⟨hbelow, .inl hcr⟩
      · by_contra hdel
        exact hrun ⟨fun hbelow => hbelow.not_mem hserver hqs, .inr ⟨hqs, hdel⟩⟩
    · have hrun := ((h q).2 hq).2 hsame
      rw [mem_run_keepServer_of_not_contested hq] at hrun
      refine ⟨fun hqs hdel => ?_, fun hqs hcr => ?_⟩
      · exact (hrun.mpr hqs).2.resolve_right fun hright => hright.2 hdel
      · by_contra hbelow
        exact hqs (hrun.mp ⟨hbelow, .inl hcr⟩)
  · intro h q
    refine ⟨fun hq => ?_, fun hq => ⟨fun hdiff => ?_, fun hsame => ?_⟩⟩
    · exact (mem_run_keepServer_of_contested hserver hdev hq).mpr ⟨h.kept q hq, h.absent q hq⟩
    · rw [mem_run_keepServer_of_not_contested hq]
      by_cases hqd : q ∈ context.deviceExplicitDirs
      · have hqb : q ∉ context.baseExplicitDirs := fun hqb => hdiff (iff_of_true hqd hqb)
        exact iff_of_true (h.added q hq hqd hqb) hqd
      have hqb : q ∈ context.baseExplicitDirs := by
        by_contra hqb
        exact hdiff (iff_of_false hqd hqb)
      obtain ⟨hcr, hdel⟩ := h.removed q hq hqd hqb
      refine iff_of_false ?_ hqd
      rintro ⟨hbelow, hc | ⟨hqs, hd⟩⟩
      · exact hbelow (hcr hc)
      · exact hd (hdel hqs)
    · rw [mem_run_keepServer_of_not_contested hq]
      obtain ⟨hpres, habs⟩ := h.unchanged q hq hsame
      constructor
      · rintro ⟨hbelow, hc | ⟨hqs, _⟩⟩
        · by_contra hqs
          exact hbelow (habs hqs hc)
        · exact hqs
      intro hqs
      refine ⟨fun hbelow => hbelow.not_mem hserver hqs, ?_⟩
      by_cases hdel : CleanDeleteAbove c context q
      · exact .inl (hpres hqs hdel)
      · exact .inr ⟨hqs, hdel⟩

end KeepServer

/-- The device acknowledged `a` and `a/x`; meanwhile the server has dropped `a/x`. -/
def droppedChildDb : MetadataDb where
  devices := [⟨"device", "vault", none, some "main", 1, some [⟨"a"⟩, ⟨"a/x"⟩]⟩]
  directoryStateByVault := fun _ => some ⟨[⟨"a"⟩], 0, 2⟩

/-- The device deletes `a` and then recreates it with its child. -/
def recreateProposal : DirectoryProposal :=
  { sampleProposal with
    intents :=
      [{ op := .delete, path := ⟨"a"⟩, intentId := "i0", generation := 0, provenance := .localV2 },
        { op := .create, path := ⟨"a"⟩, intentId := "i1", generation := 1, provenance := .localV2 },
        { op := .create, path := ⟨"a/x"⟩, intentId := "i2", generation := 2, provenance := .localV2 }] }

def recreatePlan : DirectoryMergePlan :=
  planFor sampleServices droppedChildDb "vault" recreateProposal [⟨"a"⟩, ⟨"a/x"⟩]

theorem keepServer_outcome_iff_safe_recreate : KeepServerOutcome (directoryConflictContext recreatePlan)
        ((applyDirectoryIntents droppedChildDb "vault" (resolvedConflictDirectoryIntents
          codePointCollation (some (directoryConflictContext recreatePlan)) .keepServer) 3
          0).explicitDirs "vault") ↔ KeepServerSafe codePointCollation (directoryConflictContext recreatePlan) :=
  keepServer_outcome_iff_safe droppedChildDb "vault" 3 0 (by decide) (by decide) rfl

/-- The delete of `a` is clean and both creates conflict with the server's delete of `a/x`;
`a` is in the server's state and in the device's outcome, and the resolution removes it. -/
theorem keepServer_removes_common_directory :
    classifyDirectoryProposal sampleServices droppedChildDb "vault" "device" recreateProposal
        = .ok recreatePlan ∧ ¬ KeepServerOutcome (directoryConflictContext recreatePlan)
        ((applyDirectoryIntents droppedChildDb "vault" (resolvedConflictDirectoryIntents
          codePointCollation (some (directoryConflictContext recreatePlan)) .keepServer) 3
          0).explicitDirs "vault") := by
  refine ⟨by decide, fun h => ?_⟩
  have hcont : Contested (directoryConflictContext recreatePlan) ⟨"a"⟩ :=
    any_pathsOverlap_iff.mp (by decide)
  have hkept := ((h ⟨"a"⟩).1 hcont).mpr (by decide)
  revert hkept
  decide

end DirectoryResolution
