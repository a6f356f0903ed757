import Obts.MigratedBaselines
import Obts.DirectoryProposals

/-!
# Directory deltas of a pull

A pull to the current main sends the difference between the device's baseline and the live directories, followed
by the intents of the retained events, compacted together. A deletion that was retained can take a creation out
of the difference that is still needed. The delta is exact unless it does so to a live folder.
-/
namespace EventSnapshots

open ForestEdits SlashPath InsertionOrder DirectoryIntents Metadata DirectoryStates MigratedBaselines List
open DirectoryIntent
open CompactedIntents (not_le_of_survives_create apply_eq_iff)

section Replay
variable {α : Type*} [ForestOrder α] {S : Set α} {es : List (Edit α)} {f : Edit α}

lemma run_append (S : Set α) (es fs : List (Edit α)) : run S (es ++ fs) = run (run S es) fs :=
  foldl_append

/-- A surviving creation is there in the end. -/
lemma mem_run_of_survives_create (h : Survives es f) (hop : f.op = .create) : f.node ∈ run S es := by
  have htouc : f.Touches f.node := by simp [Edit.Touches, hop]
  rcases exists_lastTouch_or_untouched es f.node with ⟨e, hlast⟩ | hnone
  · rw [mem_run_of_lastTouch hlast]
    cases hlasO : e.op with
    | create => rfl
    | delete => exact absurd le_rfl (not_le_of_survives_create hlast hlasO h hop)
  · exact absurd htouc (hnone f h.mem)

/-- No surviving deletion reaches a live node without a surviving creation that does too. -/
def ReplaySafe (S : Set α) (es : List (Edit α)) : Prop :=
  ∀ q ∈ S, (∃ f, Survives es f ∧ f.op = .delete ∧ f.node ≤ q) → ∃ f, Survives es f ∧ f.op = .create ∧ q ≤ f.node

end Replay

section Delta

variable {c : Collation} {baseline live : List Path} {replayed : List DirectoryIntent}
  {earlier : Set Path}

def deltaOf (c : Collation) (baseline live : List Path) (replayed : List DirectoryIntent) : List DirectoryIntent :=
  compactDirectoryIntents c (directoryIntentsBetweenSnapshots c baseline live ++ compactDirectoryIntents c replayed)

/-- A surviving replayed intent stands, and of the difference what none of them overrides. -/
lemma mem_deltaOf {f : DirectoryIntent} : f ∈ deltaOf c baseline live replayed ↔
      Survives (edits replayed) f.edit ∨ (f ∈ directoryIntentsBetweenSnapshots c baseline live ∧
          ∀ g : DirectoryIntent, Survives (edits replayed) g.edit → ¬ Overrides g.edit f.edit) := by
  have hedits : edits (directoryIntentsBetweenSnapshots c baseline live ++ compactDirectoryIntents c replayed)
      = edits (directoryIntentsBetweenSnapshots c baseline live) ++ edits (compactDirectoryIntents c replayed) :=
    map_append
  have hmem : ∀ intents : List DirectoryIntent, f.edit ∈ edits intents ↔ f ∈ intents := by
    intro intents
    rw [edits, mem_map_of_injective edit_injective]
  have hfirst : AncestorsFirst (edits (directoryIntentsBetweenSnapshots c baseline live)) :=
    ancestorsFirst_compactDirectoryIntents c _
  have hsnd : AncestorsFirst (edits (compactDirectoryIntents c replayed)) :=
    ancestorsFirst_compactDirectoryIntents c _
  rw [deltaOf, mem_compactDirectoryIntents, hedits, survives_append, hsnd.survives_iff_mem, hfirst.survives_iff_mem,
    hmem, hmem, mem_compactDirectoryIntents]
  refine or_congr_right (and_congr_right fun _ => ?_)
  constructor
  · intro h g hg
    exact h g.edit (mem_map_of_mem (mem_compactDirectoryIntents.mpr hg))
  intro h e he
  obtain ⟨g, hg, rfl⟩ := mem_map.mp he
  exact h g (mem_compactDirectoryIntents.mp hg)

lemma mem_run_deltaOf {q : Path} : q ∈ run (dirs baseline) (edits (deltaOf c baseline live replayed)) ↔
      (∃ f ∈ deltaOf c baseline live replayed, f.op = .create ∧ q ≤ f.path) ∨
        (q ∈ baseline ∧ ∀ f ∈ deltaOf c baseline live replayed, f.op = .delete → ¬ f.path ≤ q) := by
  have hfirst : AncestorsFirst (edits (deltaOf c baseline live replayed)) :=
    ancestorsFirst_compactDirectoryIntents c _
  rw [mem_run_of_ancestorsFirst hfirst]
  simp [edits]

lemma survives_edit {e : Edit Path} (h : Survives (edits replayed) e) : ∃ f : DirectoryIntent, f.edit = e := by
  obtain ⟨f, -, rfl⟩ := mem_map.mp h.mem
  exact ⟨f, rfl⟩

/-- The delta leads to nothing that is not live, when the replayed intents lead to what is. -/
lemma run_deltaOf_subset (hlive : PrefixClosed live) (hrepl : run earlier (edits replayed) = dirs live) :
    run (dirs baseline) (edits (deltaOf c baseline live replayed)) ⊆ dirs live := by
  have hcr : ∀ f : DirectoryIntent, Survives (edits replayed) f.edit → f.op = .create → f.path ∈ live := by
    intro f hf hop
    have hin := mem_run_of_survives_create (S := earlier) hf hop
    rwa [hrepl] at hin
  intro q hq
  rcases mem_run_deltaOf.mp hq with ⟨f, hf, hop, hle⟩ | ⟨hbas, hkept⟩
  · rcases mem_deltaOf.mp hf with hsurv | ⟨hdiff, -⟩
    · exact hlive hle (hcr f hsurv hop)
    rcases mem_directoryIntentsBetweenSnapshots.mp hdiff with ⟨hdel, -⟩ | ⟨-, hnew⟩
    · rw [hop] at hdel
      cases hdel
    · exact hlive hle (mem_created.mp hnew).1
  · by_contra hnot
    obtain ⟨d, hd, hle⟩ := exists_mem_deleted_le hbas hnot
    have hdiff : (⟨.delete, d⟩ : DirectoryIntent) ∈ directoryIntentsBetweenSnapshots c baseline live :=
      mem_directoryIntentsBetweenSnapshots.mpr (.inl ⟨rfl, hd⟩)
    -- the deletion of `d` is overridden, or it would reach `q`
    have hove : ¬ ∀ g : DirectoryIntent, Survives (edits replayed) g.edit →
        ¬ Overrides g.edit (edit ⟨.delete, d⟩) :=
      fun hnone => hkept ⟨.delete, d⟩ (mem_deltaOf.mpr (.inr ⟨hdiff, hnone⟩)) rfl hle
    simp only [not_forall, not_not] at hove
    obtain ⟨g, hg, hover⟩ := hove
    have hgle : g.path ≤ d := hover.elim (fun heq => (show g.path = d from heq).le) And.right
    cases hgop : g.op with
    | delete => exact hkept g (mem_deltaOf.mpr (.inl hg)) hgop (hgle.trans hle)
    | create =>
      have heq : g.path = d := hover.resolve_right fun hdel => by
        rw [edit_op, hgop] at hdel
        cases hdel.1
      exact (mem_deleted.mp hd).2.1 (heq ▸ hcr g hg hgop)

/-- Every live path is reached just when the replay is safe. -/
lemma subset_run_deltaOf_iff (hlive : PrefixClosed live) :
    dirs live ⊆ run (dirs baseline) (edits (deltaOf c baseline live replayed)) ↔
      ReplaySafe (dirs live) (edits replayed) := by
  constructor
  · rintro h q hq ⟨e, he, hdel, hle⟩
    obtain ⟨d, rfl⟩ := survives_edit he
    rcases mem_run_deltaOf.mp (h hq) with ⟨f, hf, hop, hqf⟩ | ⟨-, hkept⟩
    · rcases mem_deltaOf.mp hf with hsurv | ⟨-, hnone⟩
      · exact ⟨f.edit, hsurv, hop, hqf⟩
      · exact absurd (.inr ⟨hdel, hle.trans hqf⟩) (hnone d he)
    · exact absurd hle (hkept d (mem_deltaOf.mpr (.inl he)) hdel)
  · intro h q hq
    by_cases hcr : ∃ f : DirectoryIntent, Survives (edits replayed) f.edit ∧ f.op = .create ∧ q ≤ f.path
    · obtain ⟨f, hf, hop, hle⟩ := hcr
      exact mem_run_deltaOf.mpr (.inl ⟨f, mem_deltaOf.mpr (.inl hf), hop, hle⟩)
    have hund : ∀ f : DirectoryIntent, Survives (edits replayed) f.edit → f.op = .delete → ¬ f.path ≤ q := by
      intro f hf hop hle
      obtain ⟨e, he, hecr, hqe⟩ := h q hq ⟨f.edit, hf, hop, hle⟩
      obtain ⟨g, rfl⟩ := survives_edit he
      exact hcr ⟨g, he, hecr, hqe⟩
    apply mem_run_deltaOf.mpr
    by_cases hbas : q ∈ baseline
    · refine .inr ⟨hbas, fun f hf hop hle => ?_⟩
      rcases mem_deltaOf.mp hf with hsurv | ⟨hdiff, -⟩
      · exact hund f hsurv hop hle
      rcases mem_directoryIntentsBetweenSnapshots.mp hdiff with ⟨-, hgone⟩ | ⟨hnew, -⟩
      · exact (mem_deleted.mp hgone).2.1 (hlive hle hq)
      · rw [hop] at hnew
        cases hnew
    · have hdiff : (⟨.create, q⟩ : DirectoryIntent) ∈ directoryIntentsBetweenSnapshots c baseline live :=
        mem_directoryIntentsBetweenSnapshots.mpr (.inr ⟨rfl, mem_created.mpr ⟨hq, hbas⟩⟩)
      refine .inl ⟨⟨.create, q⟩, mem_deltaOf.mpr (.inr ⟨hdiff, fun g hg hover => ?_⟩), rfl, le_rfl⟩
      have hgle : g.path ≤ q := hover.elim (fun heq => (show g.path = q from heq).le) And.right
      cases hgop : g.op with
      | delete => exact hund g hg hgop hgle
      | create =>
        have heq : g.path = q := hover.resolve_right fun hdel => by
          rw [edit_op, hgop] at hdel
          cases hdel.1
        exact hcr ⟨g, hg, hgop, heq ▸ le_rfl⟩

/-- Applied to the baseline, the delta gives the live directories just when the replay is safe. -/
lemma apply_deltaOf_iff (hlive : Canonical live) (hrepl : run earlier (edits replayed) = dirs live) :
    applyDirectoryIntentsToSnapshot baseline (deltaOf c baseline live replayed) = live ↔
      ReplaySafe (dirs live) (edits replayed) := by
  rw [← @subset_run_deltaOf_iff c baseline live replayed hlive.prefixClosed]
  have hpatch : applyDirectoryIntentsToSnapshot baseline (directoryIntentsBetweenSnapshots c baseline live) =
      live := by
    rw [apply_directoryIntentsBetweenSnapshots c baseline hlive.prefixClosed, sort_ofList_of_canonical hlive]
  have hlists : applyDirectoryIntentsToSnapshot baseline (deltaOf c baseline live replayed) = live ↔
      run (dirs baseline) (edits (deltaOf c baseline live replayed)) = dirs live := by
    rw [← run_directoryIntentsBetweenSnapshots c baseline hlive.prefixClosed, ← apply_eq_iff, hpatch]
  rw [hlists]
  constructor
  · exact fun heq => heq.ge
  · exact fun hsub => (run_deltaOf_subset hlive.prefixClosed hrepl).antisymm hsub

end Delta

/-- An entry of an event's `directory_acknowledgements`; what has another type is `none`. -/
structure AcknowledgementEntry where
  (deviceId intentId : Option String)
  generation : Option Nat

/-- What the snapshot reads of events and vaults besides their rows in the log. -/
structure EventDetails where
  /-- The main of the commit cursors. -/
  main : EventEnvelope → Option String
  directoryAcknowledgements : EventEnvelope → List AcknowledgementEntry
  rootCommit : VaultRow → String

structure EventSnapshot where
  eventSeq : Nat
  directoryIntents : List DirectoryIntent
  explicitDirectories : List Path
  directoryAcknowledgements : List IntentAcknowledgement

variable (c : Collation)

def directoryIntentsFromEvents (events : List EventEnvelope) : List DirectoryIntent :=
  compactDirectoryIntents c (intentsOf events)

def acknowledgementOf (deviceId : String) (entry : AcknowledgementEntry) : Option IntentAcknowledgement := do
  let device ← entry.deviceId
  let intentId ← entry.intentId
  let generation ← entry.generation
  if device = deviceId ∧ DirectoryProposals.isSafeInteger generation then some ⟨intentId, generation⟩ else none

variable (details : EventDetails) (db : MetadataDb)

def directoryAcknowledgementsForDevice (events : List EventEnvelope)
    (vaultId deviceId : String) (afterEventSeq throughEventSeq : Nat) : List IntentAcknowledgement :=
  let results := db.directoryProposalResults.filter fun result =>
    result.vaultId = vaultId && result.deviceId = deviceId && afterEventSeq < result.eventSeq &&
      result.eventSeq ≤ throughEventSeq && (result.status = .accepted || result.status = .resolved)
  ofList (events.flatMap (fun event =>
    (details.directoryAcknowledgements event).filterMap (acknowledgementOf deviceId)) ++
    results.flatMap DirectoryProposalResultRow.acknowledgedIntents)

def snapshotUnavailable (message : String) : Failure := .auth ⟨409, "directory_snapshot_unavailable", message⟩

/-- The loop over the events after the baseline; the number expected after them. -/
def checkContiguous (expectedEventSeq : Nat) : List EventEnvelope → Except Failure Nat
  | [] => .ok expectedEventSeq
  | event :: events =>
    if event.eventSeq ≠ expectedEventSeq then
      .error (snapshotUnavailable "Historical directory evidence is not contiguous through the requested main.")
    else checkContiguous (expectedEventSeq + 1) events

/-- The number of the vault's last event. -/
def currentEventSeq (vaultId : String) : Nat :=
  ((db.eventSeqByVault vaultId).or ((db.directoryStateByVault vaultId).map DirectoryStateRow.lastEventSeq)).getD 0

/-- The retained events of the vault after the cursor. -/
def relevantEvents (vaultId : String) (afterEventSeq : Nat) : List EventEnvelope :=
  db.events.filter fun event =>
    event.vaultId = vaultId && afterEventSeq < event.eventSeq && event.eventSeq ≤ currentEventSeq db vaultId

def currentSnapshot (vaultId deviceId : String)
    (afterEventSeq : Nat) (baseExplicitDirectories : Option (List Path)) : EventSnapshot :=
  let explicitDirectories := sort (db.explicitDirs vaultId)
  let events := relevantEvents db vaultId afterEventSeq
  let eventDirectoryIntents := directoryIntentsFromEvents c events
  { eventSeq := currentEventSeq db vaultId
    directoryIntents :=
      match baseExplicitDirectories with
      | none => eventDirectoryIntents
      | some base => compactDirectoryIntents c
          (directoryIntentsBetweenSnapshots c base explicitDirectories ++ eventDirectoryIntents)
    explicitDirectories
    directoryAcknowledgements := directoryAcknowledgementsForDevice details db events vaultId deviceId afterEventSeq
      (currentEventSeq db vaultId) }

def historicalSnapshot (vaultId deviceId targetMain : String)
    (afterEventSeq : Nat) (baseExplicitDirectories : Option (List Path)) : Except Failure EventSnapshot := do
  let vaultEvents := sortBy (compareOn EventEnvelope.eventSeq) (db.events.filter (·.vaultId = vaultId))
  let mainEvent := vaultEvents.reverse.find? fun event =>
    event.eventType = .mainAdvanced && details.main event = some targetMain
  if mainEvent.isNone && (db.vaults.find? (·.vaultId = vaultId)).map details.rootCommit ≠ some targetMain then
    throw (snapshotUnavailable "Historical directory evidence for the requested main is unavailable.")
  let eventSeq := (mainEvent.map EventEnvelope.eventSeq).getD 0
  let throughTarget := vaultEvents.filter (·.eventSeq ≤ eventSeq)
  let eventsAfterBaseline := throughTarget.filter (afterEventSeq < ·.eventSeq)
  if afterEventSeq < eventSeq then
    let expectedEventSeq ← checkContiguous (afterEventSeq + 1) eventsAfterBaseline
    if expectedEventSeq ≠ eventSeq + 1 then
      throw (snapshotUnavailable "Historical directory evidence ends before the requested main.")
  if baseExplicitDirectories.isNone && 0 < eventSeq &&
      (throughTarget.head?.map EventEnvelope.eventSeq) ≠ some 1 then
    throw (snapshotUnavailable "Historical directory evidence does not include the initial directory baseline.")
  let folded := directoryIntentsFromEvents c (if baseExplicitDirectories.isNone then throughTarget
    else eventsAfterBaseline)
  return {
    eventSeq
    directoryIntents := directoryIntentsFromEvents c eventsAfterBaseline
    explicitDirectories := sort (folded.foldl foldIntent (ofList (baseExplicitDirectories.getD [])))
    directoryAcknowledgements := directoryAcknowledgementsForDevice details db eventsAfterBaseline vaultId deviceId
      afterEventSeq eventSeq }

def eventSnapshotForTarget
    (vaultId deviceId targetMain : String) (afterEventSeq : Nat) (baseExplicitDirectories : Option (List Path)) :
    Except Failure EventSnapshot :=
  if (db.vaults.find? (·.vaultId = vaultId)).any (·.currentMain = targetMain) then
    .ok (currentSnapshot c details db vaultId deviceId afterEventSeq baseExplicitDirectories)
  else historicalSnapshot c details db vaultId deviceId targetMain afterEventSeq baseExplicitDirectories

/-- The intents that a pull to the current main sends to a device with a baseline. -/
lemma directoryIntents_of_current {c : Collation} {details : EventDetails} {db : MetadataDb}
    {vaultId deviceId targetMain : String} {afterEventSeq : Nat} {baseline : List Path} {snapshot : EventSnapshot}
    (hmain : (db.vaults.find? (·.vaultId = vaultId)).any (·.currentMain = targetMain))
    (h : eventSnapshotForTarget c details db vaultId deviceId targetMain afterEventSeq (some baseline) =
      .ok snapshot) :
    snapshot.directoryIntents = deltaOf c baseline (sort (db.explicitDirs vaultId))
      (intentsOf (relevantEvents db vaultId afterEventSeq)) := by
  rw [eventSnapshotForTarget, if_pos hmain] at h
  cases h
  rfl

/-- With a suffix of the events since the baseline retained, what a pull to the current main sends leads from the
baseline to the live directories just when no retained deletion survives above a live folder that no surviving
retained creation keeps. -/
theorem current_delta_exact_iff (c : Collation) (details : EventDetails) {start : MetadataDb} {vaultId : String}
    (hfresh : Fresh start vaultId) (before later : List Step) (events : List EventEnvelope) {db : MetadataDb}
    (hdb : db = { runSteps start (before ++ later) with events })
    (hretained : relevantEvents db vaultId ((runSteps start before).eventSeq vaultId)
      <:+ appended vaultId ((runSteps start before).eventSeq vaultId) later)
    {deviceId targetMain : String} {snapshot : EventSnapshot}
    (hmain : (db.vaults.find? (·.vaultId = vaultId)).any (·.currentMain = targetMain) = true)
    (h : eventSnapshotForTarget c details db vaultId deviceId targetMain ((runSteps start before).eventSeq vaultId)
      (some ((runSteps start before).explicitDirs vaultId)) = .ok snapshot) :
    applyDirectoryIntentsToSnapshot ((runSteps start before).explicitDirs vaultId) snapshot.directoryIntents
        = db.explicitDirs vaultId ↔ ReplaySafe (dirs (db.explicitDirs vaultId))
        (edits (intentsOf (relevantEvents db vaultId ((runSteps start before).eventSeq vaultId)))) := by
  have hcan : Canonical (db.explicitDirs vaultId) := by
    rw [hdb]
    exact canonical_runSteps (hfresh.explicitDirs ▸ canonical_nil) _
  obtain ⟨earlier, hsplit⟩ := hretained
  have hlive : run (run (dirs ((runSteps start before).explicitDirs vaultId)) (edits (intentsOf earlier)))
      (edits (intentsOf (relevantEvents db vaultId ((runSteps start before).eventSeq vaultId))))
        = dirs (db.explicitDirs vaultId) := by
    have hdirs := @dirs_runSteps vaultId (runSteps start before) later
    have hwhole : runSteps start (before ++ later) = runSteps (runSteps start before) later := foldl_append
    rw [← hsplit, intentsOf, flatMap_append, edits, map_append, run_append] at hdirs
    have hsame : db.explicitDirs vaultId = (runSteps (runSteps start before) later).explicitDirs vaultId := by
      rw [hdb, hwhole]
      rfl
    rw [hsame]
    exact hdirs.symm
  rw [directoryIntents_of_current hmain h, sort_of_sorted hcan.sorted]
  exact apply_deltaOf_iff hcan hlive

def sampleDetails : EventDetails where
  main event := some event.eventId
  directoryAcknowledgements _ := []
  rootCommit _ := "root"

/-- The folder `q` is there when the device pulls for the first time. -/
def beforePull : List Step := [.record (mainEvent "m1" [⟨.create, ⟨"q"⟩⟩])]

/-- `q` is deleted, `q/x` is created, which creates `q` again, and `q/x` is deleted. -/
def recreatedByChild : List Step :=
  [.record (mainEvent "m2" [⟨.delete, ⟨"q"⟩⟩]), .record (mainEvent "m3" [⟨.create, ⟨"q/x"⟩⟩]),
    .record (mainEvent "m4" [⟨.delete, ⟨"q/x"⟩⟩]), advancedTo "m4"]

def onlyCreated : List Step := [.record (mainEvent "m2" [⟨.create, ⟨"r/s"⟩⟩]), advancedTo "m2"]

theorem current_delta_exact_iff_created :
    applyDirectoryIntentsToSnapshot ((runSteps {} beforePull).explicitDirs "vault")
        (currentSnapshot codePointCollation sampleDetails (runSteps {} (beforePull ++ onlyCreated)) "vault" "device" 1
          (some [⟨"q"⟩])).directoryIntents = (runSteps {} (beforePull ++ onlyCreated)).explicitDirs "vault" ↔
      ReplaySafe (dirs ((runSteps {} (beforePull ++ onlyCreated)).explicitDirs "vault"))
        (edits (intentsOf (relevantEvents (runSteps {} (beforePull ++ onlyCreated)) "vault" 1))) := by
  have hret : relevantEvents (runSteps {} (beforePull ++ onlyCreated)) "vault" 1
      <:+ appended "vault" 1 onlyCreated := by decide
  have hmain : ((runSteps {} (beforePull ++ onlyCreated)).vaults.find? (·.vaultId = "vault")).any
      (·.currentMain = "m2") = true := by decide
  exact current_delta_exact_iff codePointCollation sampleDetails ⟨rfl, rfl, rfl⟩ beforePull onlyCreated
    (runSteps {} (beforePull ++ onlyCreated)).events rfl hret hmain rfl

/-- The delta deletes `q` and `q/x`, and `q` is live. -/
theorem replayed_deletion_removes_live_folder :
    ¬ ∀ (c : Collation) (details : EventDetails) (start : MetadataDb) (vaultId : String), Fresh start vaultId →
      ∀ (before later : List Step) (events : List EventEnvelope) (db : MetadataDb),
      db = { runSteps start (before ++ later) with events } →
      relevantEvents db vaultId ((runSteps start before).eventSeq vaultId)
        <:+ appended vaultId ((runSteps start before).eventSeq vaultId) later →
      ∀ (deviceId targetMain : String) (snapshot : EventSnapshot),
      (db.vaults.find? (·.vaultId = vaultId)).any (·.currentMain = targetMain) = true →
      eventSnapshotForTarget c details db vaultId deviceId targetMain ((runSteps start before).eventSeq vaultId)
        (some ((runSteps start before).explicitDirs vaultId)) = .ok snapshot →
      applyDirectoryIntentsToSnapshot ((runSteps start before).explicitDirs vaultId) snapshot.directoryIntents
        = db.explicitDirs vaultId := by
  intro hclaim
  have hret : relevantEvents (runSteps {} (beforePull ++ recreatedByChild)) "vault" 1
      <:+ appended "vault" 1 recreatedByChild := by decide
  have hsame := hclaim codePointCollation sampleDetails {} "vault" ⟨rfl, rfl, rfl⟩ beforePull recreatedByChild
    (runSteps {} (beforePull ++ recreatedByChild)).events _ rfl hret "device" "m4" _ (by decide) rfl
  revert hsame
  decide

end EventSnapshots
