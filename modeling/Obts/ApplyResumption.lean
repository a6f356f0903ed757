import Obts.ApplyRuns
import Obts.PlannedJournals

/-!
# Resuming an apply

Wherever the process stops, the journal on disk is one that the planned journal has become, and the
bundle it names holds one as well. That the restarted client accepts both is the invariant of the runs.
-/
namespace ApplyJournals

open InsertionOrder SlashPath ClientPaths StoredIntents List
open Option (bind_eq_some_iff ite_none_right_eq_some)
open DirectoryRecovery (Fingerprint FileHashes isTargetFileSizeMap zeroHashes mainCommit)

variable {p : Path} {targetMatchedPaths localPaths : List Path}

section Continues
variable {u : SegmentNormalization} {a : Arguments} {s : Surroundings}
variable {planned journal : ApplyJournal}

variable (u) in
/-- The journal with another phase, other deferred paths, and a bundle. -/
structure Continues (planned journal : ApplyJournal) : Prop where
  same : journal = { planned with
    phase := journal.phase
    deferredLocalPaths := journal.deferredLocalPaths
    recoveryBundleId := journal.recoveryBundleId
    lastCompletedStep := journal.lastCompletedStep
    redactedErrorCategory := journal.redactedErrorCategory }
  deferred : sortedPaths u journal.deferredLocalPaths = true

/-- The checks that the reader has passed. -/
structure Accepted (u : SegmentNormalization) (journal : ApplyJournal) : Prop where
  affected : checkAffected u journal = true
  fingerprints : checkFingerprints journal = true
  directories : checkDirectories u journal = true
  sizes : isTargetFileSizeMap u journal.targetFileSizes = true
  localOnly : checkLocalOnly u journal = true
  deferred : sortedPaths u journal.deferredLocalPaths = true
  authoring : checkAuthoring u journal = true

lemma Planned.checks (h : Planned u a s planned) : Accepted u planned := by
  have hacc := h.accepted
  simp only [parseApplyJournal, h.version, Nat.reduceLeDiff, decide_true, Bool.true_and] at hacc
  constructor <;>
    · by_contra hfails
      simp [hfails] at hacc

lemma Planned.continues (h : Planned u a s planned) : Continues u planned planned :=
  ⟨rfl, h.checks.deferred⟩

lemma Continues.accepted (h : Continues u planned journal) (hplan : Planned u a s planned) :
    parseApplyJournal u journal = some journal := by
  have hchk := hplan.checks
  obtain ⟨hsame, hdfr⟩ := h
  refine parseApplyJournal_of ?_ ?_ ?_ ?_ ?_ ?_ hdfr ?_
  all_goals rw [hsame]
  · exact hplan.version
  · exact hchk.affected
  · exact hchk.fingerprints
  · exact hchk.directories
  · exact hchk.sizes
  · exact hchk.localOnly
  · exact hchk.authoring

lemma Continues.affectedPaths (h : Continues u planned journal) :
    journal.affectedPaths = planned.affectedPaths := by
  rw [h.same]

/-- Two journals that the planned one has become agree in what the bundle has to agree in. -/
lemma Continues.sameOperation {saved : ApplyJournal} (h : Continues u planned journal)
    (hsaved : Continues u planned saved) : sameOperation saved journal := by
  rw [h.same, hsaved.same]
  simp [ApplyJournals.sameOperation]

lemma Planned.affected_safe (h : Planned u a s planned) : ∀ p ∈ planned.affectedPaths, isSafeJournalPath u p := by
  have haff := h.checks.affected
  simp only [checkAffected, Bool.and_eq_true] at haff
  exact (pathArray_iff.mp haff.1.2).1

lemma Planned.directories_safe (h : Planned u a s planned) :
    (∀ intent ∈ planned.directoryIntents, isSafeJournalPath u intent.path) ∧
      ∀ p ∈ planned.explicitDirectories, isSafeJournalPath u p := by
  have hdirs := h.checks.directories
  simp only [checkDirectories, Bool.and_eq_true] at hdirs
  obtain ⟨⟨⟨⟨⟨⟨⟨⟨hints, hexpl⟩, -⟩, -⟩, -⟩, -⟩, -⟩, -⟩, -⟩ := hdirs
  exact ⟨fun intent hintent => all_eq_true.mp hints intent hintent, (pathArray_iff.mp hexpl).1⟩

/-- What a scan or a check reports can be put into the journal. -/
lemma reports_safe (hgiven : Given u a s) (hplan : Planned u a s planned)
    (h : Continues u planned journal) (hreps : reports u s journal p) : isSafeJournalPath u p := by
  have hsafe := hplan.affected_safe
  simp only [reports, Bool.or_eq_true, contains_eq_mem, decide_eq_true_eq, any_eq_true] at hreps
  rw [h.same] at hreps
  rcases hreps with ((((hp | ⟨affected, hp, hlt⟩) | ⟨intent, hp, rfl⟩) | hp) | hp) | hp
  · exact hsafe p hp
  · exact isSafeJournalPath_folder (hsafe affected hp) (Path.startsWithDir_iff_lt.mp hlt)
  · exact hplan.directories_safe.1 intent hp
  · exact hplan.directories_safe.2 p hp
  · exact hgiven.targetFiles p hp
  · exact hp

section
variable (h : Continues u planned journal)
include h

lemma Continues.withDeferred {deferredLocalPaths : List Path} (hdfr : sortedPaths u deferredLocalPaths) :
    Continues u planned { journal with deferredLocalPaths } where
  same := by
    conv_lhs => rw [h.same]
  deferred := hdfr

lemma Continues.deferring (hgiven : Given u a s)
    (hplan : Planned u a s planned) (hreps : localPaths.all (reports u s journal)) :
    Continues u planned (journal.deferring targetMatchedPaths localPaths) := by
  apply h.withDeferred
  refine sortedPaths_expandDeferred (sortedPaths_safe h.deferred) ?_ ?_
  · exact fun p hp => reports_safe hgiven hplan h (all_eq_true.mp hreps p hp)
  · rw [h.affectedPaths]
    exact hplan.affected_safe

/-- A later state of the journal, whose deferred paths stay. -/
lemma Continues.update (phase : Phase)
    (recoveryBundleId : Option BundleId) (lastCompletedStep redactedErrorCategory : Option String) :
    Continues u planned { journal with phase, recoveryBundleId, lastCompletedStep, redactedErrorCategory } where
  same := by
    conv_lhs => rw [h.same]
  deferred := h.deferred

end

end Continues

variable {bundleId : BundleId}

section Stored
variable {u : SegmentNormalization} {reading : BundleReading} {a : Arguments} {s : Surroundings}
variable {planned journal : ApplyJournal} {disk : Disk}

variable (u reading) in
/-- The bundle was made of a state of the journal, by an ordinary pull. -/
def GoodBundle (planned : ApplyJournal) (disk : Disk) (bundleId : BundleId) : Prop :=
  ∃ saved contents, Continues u planned saved ∧
    valueAt disk.bundles bundleId = some (finalizeRecoveryBundle reading disk.state bundleId
      .pullApply saved contents) ∧
    ((finalizeRecoveryBundle reading disk.state bundleId .pullApply saved contents).checksums.getD
      "").utf8ByteSize ≤ reading.fileBufferBudgetBytes

variable (u reading) in
/-- A journal that may be found: it names a good bundle, or none when there is nothing to save, or
nothing has been touched. -/
structure Stored (planned : ApplyJournal) (disk : Disk) (journal : ApplyJournal) : Prop where
  continues : Continues u planned journal
  bundled : ∀ bundleId, journal.recoveryBundleId = some bundleId →
    planned.operationType = .pullApply ∧ GoodBundle u reading planned disk bundleId
  unbundled : journal.recoveryBundleId = none →
    planned.affectedPaths = [] ∨ journal.phase = .planned ∨ journal.phase = .blockedRecovery

lemma GoodBundle.reason (h : GoodBundle u reading planned disk bundleId)
    (hplan : Planned u a s planned) (hop : planned.operationType = .pullApply)
    (hjrn : Continues u planned journal) : bundleReason u reading disk journal bundleId = none := by
  obtain ⟨saved, contents, hsaved, hbund, hfits⟩ := h
  have hfits : ¬ reading.fileBufferBudgetBytes < (reading.bundleChecksums
      (finalizeRecoveryBundle reading disk.state bundleId .pullApply saved contents).files).utf8ByteSize :=
    not_lt.mpr hfits
  have hidn : bundleIdentity disk.state journal bundleId bundleId
      { bundleId
        vaultId := (nonEmpty disk.state.vaultId).getD "unknown"
        deviceId := (nonEmpty disk.state.deviceId).getD "unknown"
        operationType := .pullApply
        applyId := some saved.applyId
        targetMain := saved.targetMain
        affectedPaths := saved.affectedPaths } = true := by
    rw [hjrn.same, hsaved.same]
    simp [bundleIdentity, hop]
  have htgt : saved.targetMain = journal.targetMain := by rw [hjrn.same, hsaved.same]
  have haff : saved.affectedPaths = journal.affectedPaths :=
    hsaved.affectedPaths.trans hjrn.affectedPaths.symm
  have hid : saved.applyId = journal.applyId := by rw [hjrn.same, hsaved.same]
  have hread : (some saved).bind (parseApplyJournal u) = some saved := hsaved.accepted hplan
  simp only [finalizeRecoveryBundle] at hbund hfits
  simp only [bundleReason, hbund, hidn, Bool.not_true, Bool.false_eq_true, if_false]
  rw [hread, if_neg (by simp [htgt, haff])]
  simp only [hjrn.sameOperation hsaved, Bool.not_true, Bool.false_eq_true, if_false]
  rw [if_neg (not_not_intro hid), if_neg hfits]
  exact if_neg (not_not_intro rfl)

lemma Stored.recordedReason (h : Stored u reading planned disk journal) (hplan : Planned u a s planned) :
    ApplyJournals.recordedReason u reading disk journal = none := by
  rw [ApplyJournals.recordedReason]
  cases hid : journal.recoveryBundleId with
  | some bundleId =>
    obtain ⟨hop, hbund⟩ := h.bundled bundleId hid
    exact hbund.reason hplan hop h.continues
  | none =>
    rw [h.continues.affectedPaths]
    rcases h.unbundled hid with hempty | hphase | hphase
    · simp [hempty]
    · simp [hphase]
    · simp [hphase]

/-- A journal of the same apply is held against the same evidence and the same target. -/
lemma Continues.evidenceReason (h : Continues u planned journal)
    (hevid : ∀ p displaced, valueAt disk.evidence p = some displaced →
      applyDisplacedEntryMatchesPreflight planned p displaced) :
    ApplyJournals.evidenceReason disk journal = none := by
  rw [ApplyJournals.evidenceReason, if_neg]
  rw [Bool.not_eq_true, ← Bool.not_eq_true, any_eq_true]
  rintro ⟨p, -, hany⟩
  cases hdsp : valueAt disk.evidence p with
  | none =>
    rw [hdsp] at hany
    cases hany
  | some displaced =>
    have hsame : applyDisplacedEntryMatchesPreflight journal p displaced
        = applyDisplacedEntryMatchesPreflight planned p displaced := by
      rw [h.same]
      rfl
    rw [hdsp, Option.any_some, hsame, hevid p displaced hdsp] at hany
    cases hany

lemma Continues.targetReason (h : Continues u planned journal) :
    ApplyJournals.targetReason disk journal = ApplyJournals.targetReason disk planned := by
  rw [h.same]
  rfl

end Stored

/-- Past this point the journal names its bundle, unless there is nothing to save. -/
def Point.settled : Point → Bool
  | .recorded | .writing | .verifying | .refMoved | .committed => true
  | .start | .planned | .bundled _ | .ended => false

section Runs
variable {u : SegmentNormalization} {c : Collation} {hashes : FileHashes} {reading : BundleReading}
variable {a : Arguments} {s : Surroundings} {planned : ApplyJournal} {run next : Run} {disk : Disk}
  {labels : List Label} {point : Point} {label : Label}

/-- What the apply finds when it begins: no journal, no evidence under its id, the target's objects, an
acknowledgement of the target at most. -/
structure Begins (a : Arguments) (s : Surroundings) (disk : Disk) : Prop where
  journal : disk.journal = none
  evidence : disk.evidence = []
  commit : disk.hasCommit a.targetMain = true
  state : disk.state = s.state
  acknowledgement : disk.pendingAcknowledgement.all (· = a.targetMain) = true

/-- The local main ref is the one of the state. -/
def RefAgrees (a : Arguments) (disk : Disk) : Prop :=
  ∀ ref, disk.mainRef = some ref → ref = a.targetMain ∨ disk.state.localMain = some ref

variable (u reading) in
structure Resuming (planned : ApplyJournal) (run : Run) : Prop where
  inHand : Stored u reading planned run.disk run.journal
  onDisk : ∀ stored, run.disk.journal = some stored → Stored u reading planned run.disk stored
  published : ∀ bundleId, run.point = .bundled bundleId → GoodBundle u reading planned run.disk bundleId
  settled : run.point.settled = true → run.journal.recoveryBundleId ≠ none ∨ planned.affectedPaths = []
  evidence : ∀ p displaced, valueAt run.disk.evidence p = some displaced →
    applyDisplacedEntryMatchesPreflight planned p displaced = true
  target : targetReason run.disk planned = none

section
variable (h : Resuming u reading planned run)
include h

/-- The journal is written in a state that may be found. -/
lemma Resuming.write {journal : ApplyJournal} (hsto : Stored u reading planned run.disk journal)
    (hpubl : ∀ bundleId, point ≠ .bundled bundleId)
    (hstl : point.settled → journal.recoveryBundleId ≠ none ∨ planned.affectedPaths = []) :
    Resuming u reading planned (run.write journal point) where
  inHand := { hsto with }
  onDisk stored hdisk := by
    cases hdisk
    exact { hsto with }
  published bundleId hpoint := absurd hpoint (hpubl bundleId)
  settled := hstl
  evidence := h.evidence
  target := h.target

/-- A settled journal may be found in any phase. -/
lemma Resuming.stored_settled (hstl : run.journal.recoveryBundleId ≠ none ∨ planned.affectedPaths = [])
    (phase : Phase)
    (lastCompletedStep redactedErrorCategory : Option String) :
    Stored u reading planned run.disk { run.journal with phase, lastCompletedStep, redactedErrorCategory } where
  continues := h.inHand.continues.update phase run.journal.recoveryBundleId lastCompletedStep
    redactedErrorCategory
  bundled := h.inHand.bundled
  unbundled hnone := by
    rcases hstl with hsome | hempty
    · exact absurd hnone hsome
    · exact .inl hempty

lemma Resuming.settled_of_ready (hready : run.ready) :
    run.journal.recoveryBundleId ≠ none ∨ planned.affectedPaths = [] := by
  rw [Run.ready, Bool.or_eq_true, Bool.and_eq_true, decide_eq_true_eq, decide_eq_true_eq] at hready
  rcases hready with hpoint | ⟨-, hempty⟩
  · exact h.settled (hpoint ▸ rfl)
  · exact .inr (h.inHand.continues.affectedPaths ▸ isEmpty_iff.mp hempty)

lemma Resuming.deferring (hgiven : Given u a s) (hplan : Planned u a s planned)
    (hreps : localPaths.all (reports u s run.journal)) :
    Stored u reading planned run.disk (run.journal.deferring targetMatchedPaths localPaths) where
  continues := h.inHand.continues.deferring hgiven hplan hreps
  bundled := h.inHand.bundled
  unbundled := h.inHand.unbundled

lemma Resuming.withEvidence {displaced : Evidence}
    (hmat : applyDisplacedEntryMatchesPreflight planned p displaced) :
    Resuming u reading planned (run.withEvidence p displaced) := { h with
  inHand := { h.inHand with }
  onDisk stored hdisk :=
    { h.onDisk stored hdisk with }
  evidence := fun q other hother => by
    by_cases hq : q = p
    · subst hq
      rw [Run.withEvidence, valueAt_set_self] at hother
      exact Option.some.inj hother ▸ hmat
    · rw [Run.withEvidence, valueAt_set_of_ne _ _ hq] at hother
      exact h.evidence q other hother }

/-- A change of the disk that leaves the journal, the bundles and the device as they are. -/
lemma Resuming.changeDisk (hjrn : disk.journal = run.disk.journal ∨ disk.journal = none)
    (hbund : disk.bundles = run.disk.bundles) (hvault : disk.state.vaultId = run.disk.state.vaultId)
    (hdev : disk.state.deviceId = run.disk.state.deviceId)
    (hpubl : ∀ bundleId, point = .bundled bundleId → run.point = .bundled bundleId)
    (hstl : point.settled → run.point.settled) (hevid : disk.evidence = run.disk.evidence ∨ disk.evidence = [])
    (htgt : targetReason disk planned = none) :
    Resuming u reading planned { disk, journal := run.journal, point } := by
  have hgood : ∀ bundleId, GoodBundle u reading planned run.disk bundleId →
      GoodBundle u reading planned disk bundleId := by
    rintro bundleId ⟨saved, contents, hsaved, hbun, hfits⟩
    have hsame : finalizeRecoveryBundle reading disk.state bundleId .pullApply saved contents
        = finalizeRecoveryBundle reading run.disk.state bundleId .pullApply saved contents := by
      simp [finalizeRecoveryBundle, hvault, hdev]
    exact ⟨saved, contents, hsaved, by rw [hsame, hbund, hbun], by rw [hsame]; exact hfits⟩
  have hsto : ∀ journal, Stored u reading planned run.disk journal →
      Stored u reading planned disk journal := fun journal hsto =>
    { hsto with bundled := fun bundleId hid =>
      ⟨(hsto.bundled bundleId hid).1, hgood bundleId (hsto.bundled bundleId hid).2⟩ }
  refine ⟨hsto _ h.inHand, ?_, ?_, fun hpoint => h.settled (hstl hpoint), ?_, htgt⟩
  · intro stored hdisk
    rcases hjrn with hjrn | hnone
    · exact hsto stored (h.onDisk stored (hjrn ▸ hdisk))
    · rw [hnone] at hdisk
      cases hdisk
  · exact fun bundleId hpoint => hgood bundleId (h.published bundleId (hpubl bundleId hpoint))
  · intro p displaced hdsp
    rcases hevid with hevid | hempty
    · exact h.evidence p displaced (hevid ▸ hdsp)
    · rw [hempty] at hdsp
      cases hdsp

/-- In such a state the apply can be resumed. -/
lemma Resuming.resumable (hplan : Planned u a s planned) : Resumable u reading run.disk := by
  intro stored hdisk
  have hsto := h.onDisk stored hdisk
  refine ⟨stored, hsto.continues.accepted hplan, ?_⟩
  rw [applyRecoveryValidationReason, hsto.continues.targetReason, h.target,
    hsto.recordedReason hplan, hsto.continues.evidenceReason h.evidence]
  rfl

end

variable (reading) in
/-- The checksums fit what is read at once; only an ordinary pull has its bundle named; a file is copied
as the preflight has it, and a folder that is copied is empty. -/
def isCareful (run : Run) : Label → Bool
  | .publishBundle bundleId contents =>
    ((finalizeRecoveryBundle reading run.disk.state bundleId .pullApply run.journal
      contents).checksums.getD "").utf8ByteSize ≤ reading.fileBufferBudgetBytes
  | .recordBundle => run.journal.operationType = .pullApply
  | .bundleFailed named => !named || run.journal.operationType = .pullApply
  | .copyFile filePath => matchesPreflight run.journal filePath (run.disk.live filePath)
  | .copyDirectory dirPath =>
    (expectedFiles run.journal dirPath).isEmpty && (expectedDirectories run.journal dirPath).isEmpty
  | .copyInto _ _ => false
  | _ => true

section
variable (h : Resuming u reading planned run)
include h

lemma Resuming.publish {contents : List (String × List UInt8)}
    (hfits : isCareful reading run (.publishBundle bundleId contents)) : Resuming u reading planned { run with
      disk := { run.disk with
        bundles := set run.disk.bundles bundleId
          (finalizeRecoveryBundle reading run.disk.state bundleId .pullApply run.journal contents) }
      point := .bundled bundleId } := by
  let disk : Disk := { run.disk with
    bundles := set run.disk.bundles bundleId
      (finalizeRecoveryBundle reading run.disk.state bundleId .pullApply run.journal contents) }
  have hnew : GoodBundle u reading planned disk bundleId :=
    ⟨run.journal, contents, h.inHand.continues, valueAt_set_self _ _ _, of_decide_eq_true hfits⟩
  have hgood : ∀ other, GoodBundle u reading planned run.disk other →
      GoodBundle u reading planned disk other := by
    rintro other ⟨saved, savedContents, hsaved, hbund, hbudg⟩
    by_cases hother : other = bundleId
    · exact hother ▸ hnew
    · exact ⟨saved, savedContents, hsaved, (valueAt_set_of_ne _ _ hother).trans hbund, hbudg⟩
  have hsto : ∀ journal, Stored u reading planned run.disk journal →
      Stored u reading planned disk journal := fun journal hsto =>
    { hsto with bundled := fun other hid => ⟨(hsto.bundled other hid).1, hgood other (hsto.bundled other hid).2⟩ }
  refine ⟨hsto _ h.inHand, fun stored hdisk => hsto stored (h.onDisk stored hdisk), ?_, ?_, h.evidence, h.target⟩
  · intro other hpoint
    cases hpoint
    exact hnew
  · intro hstl
    cases hstl

/-- The journal is given its bundle. -/
lemma Resuming.named (hpoint : run.point = .bundled bundleId) (hop : run.journal.operationType = .pullApply)
    (phase : Phase) (lastCompletedStep redactedErrorCategory : Option String) :
    Stored u reading planned run.disk { run.journal with
      recoveryBundleId := some bundleId, phase, lastCompletedStep, redactedErrorCategory } where
  continues := h.inHand.continues.update phase (some bundleId) lastCompletedStep redactedErrorCategory
  bundled other hid := by
    cases hid
    refine ⟨?_, h.published bundleId hpoint⟩
    rw [h.inHand.continues.same] at hop
    exact hop
  unbundled hnone := by cases hnone

/-- A blocked journal may be found without a bundle. -/
lemma Resuming.blocked (lastCompletedStep redactedErrorCategory : Option String) :
    Stored u reading planned run.disk { run.journal with
      phase := .blockedRecovery, lastCompletedStep, redactedErrorCategory } where
  continues := h.inHand.continues.update .blockedRecovery run.journal.recoveryBundleId
    lastCompletedStep redactedErrorCategory
  bundled := h.inHand.bundled
  unbundled _ := .inr (.inr rfl)

end

/-- What is copied of a careful run is what the preflight has. -/
lemma copied_matches {displaced : Fingerprint} (hjrn : Continues u planned run.journal)
    (hmat : matchesPreflight run.journal p displaced) (hkind : displaced ≠ .directory) :
    applyDisplacedEntryMatchesPreflight planned p
      { fingerprint := displaced, files := [], directories := [] } = true := by
  have hsame : matchesPreflight run.journal p displaced = matchesPreflight planned p displaced := by
    rw [hjrn.same]
    rfl
  rw [applyDisplacedEntryMatchesPreflight, ← hsame, hmat, decide_eq_true hkind]
  rfl

lemma emptyFolder_matches (hjrn : Continues u planned run.journal)
    (hkind : valueAt run.journal.preflightFingerprints p = some .directory)
    (hempty : isCareful reading run (.copyDirectory p)) : applyDisplacedEntryMatchesPreflight planned p
      { fingerprint := .directory, files := [], directories := [] } = true := by
  rw [isCareful, Bool.and_eq_true, List.isEmpty_iff, List.isEmpty_iff] at hempty
  rw [hjrn.same] at hkind hempty
  have hfiles : expectedFiles planned p = [] := hempty.1
  have hdirs : expectedDirectories planned p = [] := hempty.2
  have hpref : matchesPreflight planned p .directory = true := by
    rw [matchesPreflight, show valueAt planned.preflightFingerprints p = some .directory from hkind]
    rfl
  rw [applyDisplacedEntryMatchesPreflight, hpref, hfiles, hdirs]
  simp [sort, sortBy]

lemma targetReason_updateRef (hplan : Planned u a s planned) (h : targetReason disk planned = none) :
    targetReason { disk with mainRef := some a.targetMain } planned = none := by
  rw [targetReason] at h ⊢
  split at h
  · cases h
  rename_i hcmt
  split at h
  · cases h
  rename_i hstate
  split at h
  · cases h
  rename_i hack
  rw [if_neg hcmt, if_neg hstate, if_neg hack, hplan.target]
  simp

lemma targetReason_writeState (hplan : Planned u a s planned) (h : targetReason disk planned = none) :
    targetReason { disk with state := { disk.state with localMain := some a.targetMain } } planned
      = none := by
  rw [targetReason] at h ⊢
  split at h
  · cases h
  rename_i hcmt
  split at h
  · cases h
  split at h
  · cases h
  rename_i hack
  split at h
  · cases h
  rename_i href
  rw [if_neg hcmt, if_neg, if_neg hack, if_neg href]
  rw [hplan.target, Bool.not_eq_true]
  cases hmain : nonEmpty (some a.targetMain) with
  | none => rfl
  | some main =>
    obtain rfl : a.targetMain = main := Option.some.inj (Option.filter_eq_some_iff.mp hmain).1
    simp

lemma targetReason_acknowledge (hplan : Planned u a s planned) (h : targetReason disk planned = none) :
    targetReason { disk with pendingAcknowledgement := some a.targetMain } planned = none := by
  rw [targetReason] at h ⊢
  split at h
  · cases h
  rename_i hcmt
  split at h
  · cases h
  rename_i hstate
  split at h
  · cases h
  split at h
  · cases h
  rename_i href
  rw [if_neg hcmt, if_neg hstate, if_neg, if_neg href]
  rw [hplan.target]
  simp

lemma Resuming.defer (h : Resuming u reading planned run) (hgiven : Given u a s) (hplan : Planned u a s planned)
    (hpoint : run.point = .planned ∨ run.point = .recorded ∨ run.point = .writing ∨
      run.point = .verifying) (hreps : localPaths.all (reports u s run.journal)) :
    Resuming u reading planned (recordDeferredApplyPaths run targetMatchedPaths localPaths) := by
  rw [recordDeferredApplyPaths]
  split
  · exact h
  refine h.write (h.deferring hgiven hplan hreps) (fun bundleId hbund => ?_) h.settled
  rcases hpoint with hpoint | hpoint | hpoint | hpoint
  all_goals
    rw [hpoint] at hbund
    cases hbund

lemma Resuming.step (h : Resuming u reading planned run) (hgiven : Given u a s)
    (hplan : Planned u a s planned) (hstrt : run.point ≠ .start) (hcar : isCareful reading run label)
    (hstep : run.step u c hashes reading a s label = some next) :
    Resuming u reading planned next ∧ next.point ≠ .start := by
  cases label with
  | plan =>
    rw [Run.step, if_pos hstrt] at hstep
    cases hstep
  | defer targetMatchedPaths localPaths =>
    obtain ⟨hguard, hstep⟩ := ite_none_right_eq_some.mp hstep
    simp only [Bool.and_eq_true, Bool.or_eq_true, decide_eq_true_eq, or_assoc] at hguard
    cases hstep
    refine ⟨h.defer hgiven hplan hguard.1 hguard.2, ?_⟩
    rw [recordDeferredApplyPaths]
    split <;> exact hstrt
  | setAside localPaths =>
    obtain ⟨hguard, hstep⟩ := ite_none_right_eq_some.mp hstep
    obtain ⟨hready, hreps⟩ := Bool.and_eq_true_iff.mp hguard
    cases hstep
    exact ⟨{ h with inHand := h.deferring hgiven hplan hreps }, hstrt⟩
  | refuseDestructive | preflightUnverified =>
    obtain ⟨-, ⟨⟩⟩ := ite_none_right_eq_some.mp hstep
    refine ⟨h.write (h.blocked _ _) ?_ ?_, ?_⟩
    · rintro other ⟨⟩
    · rintro ⟨⟩
    · rintro ⟨⟩
  | publishBundle bundleId contents =>
    obtain ⟨-, ⟨⟩⟩ := ite_none_right_eq_some.mp hstep
    exact ⟨h.publish hcar, by rintro ⟨⟩⟩
  | recordBundle =>
    rw [Run.step] at hstep
    split at hstep
    · rename_i bundleId hpoint
      cases hstep
      refine ⟨h.write (h.named hpoint (of_decide_eq_true hcar) _ _ _) ?_ ?_, ?_⟩
      · rintro other ⟨⟩
      · exact fun _ => .inl (Option.some_ne_none bundleId)
      · rintro ⟨⟩
    · cases hstep
  | bundleFailed named =>
    rw [Run.step] at hstep
    split at hstep
    · obtain ⟨-, ⟨⟩⟩ := Option.ite_none_left_eq_some.mp hstep
      refine ⟨h.write (h.blocked _ _) ?_ ?_, ?_⟩
      · rintro other ⟨⟩
      · rintro ⟨⟩
      · rintro ⟨⟩
    · rename_i bundleId hpoint
      cases hstep
      have hsto : Stored u reading planned run.disk { run.journal with
          recoveryBundleId := if named then some bundleId else none
          phase := .blockedRecovery
          lastCompletedStep :=
            if named then some "recovery_bundle" else run.journal.lastCompletedStep
          redactedErrorCategory := some "recovery_bundle_failed" } := by
        cases named with
        | true => exact h.named hpoint (of_decide_eq_true hcar) _ _ _
        | false =>
          refine ⟨h.inHand.continues.update _ none _ _, fun other hid => ?_, fun _ => .inr (.inr rfl)⟩
          cases hid
      refine ⟨h.write hsto ?_ ?_, ?_⟩
      · rintro other ⟨⟩
      · rintro ⟨⟩
      · rintro ⟨⟩
    · cases hstep
  | inventoryChanged | clearJournal =>
    obtain ⟨-, ⟨⟩⟩ := ite_none_right_eq_some.mp hstep
    refine ⟨h.changeDisk (.inr rfl) rfl rfl rfl ?_ ?_ (.inl rfl) h.target, ?_⟩
    · rintro other ⟨⟩
    · rintro ⟨⟩
    · rintro ⟨⟩
  | startWriting =>
    obtain ⟨hready, ⟨⟩⟩ := ite_none_right_eq_some.mp hstep
    have hstl := h.settled_of_ready hready
    refine ⟨h.write (h.stored_settled hstl _ _ _) ?_ (fun _ => hstl), ?_⟩
    · rintro other ⟨⟩
    · rintro ⟨⟩
  | copyFile filePath =>
    rw [Run.step] at hstep
    split at hstep
    · rename_i sha256 oid hevid hlive
      split at hstep
      · cases hstep
        rw [isCareful, hlive] at hcar
        exact ⟨h.withEvidence (copied_matches h.inHand.continues hcar (by rintro ⟨⟩)), hstrt⟩
      · cases hstep
    · cases hstep
  | copyDirectory dirPath =>
    obtain ⟨hguard, hstep⟩ := ite_none_right_eq_some.mp hstep
    simp only [Bool.and_eq_true, decide_eq_true_eq] at hguard
    cases hstep
    exact ⟨h.withEvidence (emptyFolder_matches h.inHand.continues hguard.1.2 hcar), hstrt⟩
  | copyInto dirPath child => cases hcar
  | verify | commit =>
    obtain ⟨hpoint, ⟨⟩⟩ := ite_none_right_eq_some.mp hstep
    have hstl := h.settled (hpoint ▸ rfl)
    refine ⟨h.write (h.stored_settled hstl _ _ _) ?_ (fun _ => hstl), ?_⟩
    · rintro other ⟨⟩
    · rintro ⟨⟩
  | updateRef =>
    rw [Run.step] at hstep
    split at hstep
    · rename_i hpoint
      cases hstep
      refine ⟨h.changeDisk (.inl rfl) rfl rfl rfl ?_ (fun _ => hpoint ▸ rfl) (.inl rfl)
        (targetReason_updateRef hplan h.target), ?_⟩
      · rintro other ⟨⟩
      · rintro ⟨⟩
    obtain ⟨-, ⟨⟩⟩ := ite_none_right_eq_some.mp hstep
    exact ⟨h.changeDisk (.inl rfl) rfl rfl rfl (fun _ => id) id (.inl rfl)
      (targetReason_updateRef hplan h.target), hstrt⟩
  | writeState =>
    obtain ⟨-, ⟨⟩⟩ := ite_none_right_eq_some.mp hstep
    exact ⟨h.changeDisk (.inl rfl) rfl rfl rfl (fun _ => id) id (.inl rfl)
      (targetReason_writeState hplan h.target), hstrt⟩
  | finishTail lastCompletedStep =>
    obtain ⟨hpoint, ⟨⟩⟩ := ite_none_right_eq_some.mp hstep
    have hstl := h.settled (hpoint ▸ rfl)
    refine ⟨h.write (h.stored_settled hstl run.journal.phase _ _) ?_ (fun _ => hstl), ?_⟩
    · rintro other ⟨⟩
    · rintro ⟨⟩
  | acknowledge =>
    obtain ⟨-, ⟨⟩⟩ := ite_none_right_eq_some.mp hstep
    exact ⟨h.changeDisk (.inl rfl) rfl rfl rfl (fun _ => id) id (.inl rfl)
      (targetReason_acknowledge hplan h.target), hstrt⟩
  | archiveEvidence =>
    obtain ⟨-, ⟨⟩⟩ := ite_none_right_eq_some.mp hstep
    exact ⟨h.changeDisk (.inl rfl) rfl rfl rfl (fun _ => id) id (.inr rfl) h.target, hstrt⟩
  | vault live =>
    cases hstep
    exact ⟨h.changeDisk (.inl rfl) rfl rfl rfl (fun _ => id) id (.inl rfl) h.target, hstrt⟩

/-- What is asked of an apply and of what it finds. -/
structure Conditions (u : SegmentNormalization) (c : Collation) (a : Arguments) (s : Surroundings)
    (disk : Disk) : Prop where
  given : Given u a s
  apart : ∀ inventory, localVaultInventory u c a s = some inventory → Apart u c a s inventory
  named : ∀ inventory, localVaultInventory u c a s = some inventory → Named u a s inventory
  ref : RefAgrees a disk

variable (u c hashes reading a s) in
/-- Every step of the run is careful where it is made. -/
def isCarefulRun (run : Run) : List Label → Bool
  | [] => true
  | label :: labels => isCareful reading run label &&
      (run.step u c hashes reading a s label).all fun next => isCarefulRun next labels

lemma isCarefulRun_cons (h : isCarefulRun u c hashes reading a s run (label :: labels))
    (hstep : run.step u c hashes reading a s label = some next) :
    isCareful reading run label ∧ isCarefulRun u c hashes reading a s next labels := by
  rwa [isCarefulRun, hstep, Option.all_some, Bool.and_eq_true] at h

lemma Resuming.steps (h : Resuming u reading planned run) (hgiven : Given u a s)
    (hplan : Planned u a s planned) (hstrt : run.point ≠ .start)
    (hcar : isCarefulRun u c hashes reading a s run labels)
    (hrun : run.run u c hashes reading a s labels = some next) : Resuming u reading planned next := by
  induction labels generalizing run with
  | nil => exact Option.some.inj hrun ▸ h
  | cons label labels ih =>
    obtain ⟨middle, hstep, hrest⟩ := bind_eq_some_iff.mp hrun
    obtain ⟨hnow, hlater⟩ := isCarefulRun_cons hcar hstep
    obtain ⟨hmid, hmoved⟩ := h.step hgiven hplan hstrt hnow hstep
    exact ih hmid hmoved hlater hrest

/-- Before the journal is written there is none. -/
lemma Begins.targetReason (h : Begins a s disk) (href : RefAgrees a disk)
    (hplan : Planned u a s planned) : ApplyJournals.targetReason disk planned = none := by
  have hstate : ((nonEmpty disk.state.localMain).any fun main =>
      main ≠ planned.targetMain && some main ≠ planned.expectedPriorLocalMain) = false := by
    rw [hplan.prior, h.state]
    cases hmain : nonEmpty s.state.localMain with
    | none => rfl
    | some main =>
      rw [(Option.filter_eq_some_iff.mp hmain).1]
      simp
  have hack : (disk.pendingAcknowledgement.any (· ≠ planned.targetMain)) = false := by
    have hsame := h.acknowledgement
    rw [← hplan.target] at hsame
    cases hpend : disk.pendingAcknowledgement with
    | none => rfl
    | some target =>
      rw [hpend] at hsame
      simpa using hsame
  have href : (disk.mainRef.any fun ref =>
      ref ≠ planned.targetMain && some ref ≠ planned.expectedPriorLocalMain) = false := by
    rw [hplan.prior, hplan.target, ← h.state]
    cases hmain : disk.mainRef with
    | none => rfl
    | some ref =>
      rcases href ref hmain with hsame | hsame
      · simp [hsame]
      · simp [hsame]
  rw [ApplyJournals.targetReason, hstate, hack, href, hplan.target, h.commit]
  rfl

/-- The planned journal is written. -/
lemma Begins.resuming (h : Begins a s disk) (href : RefAgrees a disk)
    (hplan : Planned u a s planned) {journal : ApplyJournal} (hjrn : Continues u planned journal)
    (hid : journal.recoveryBundleId = none)
    (hsafe : planned.affectedPaths = [] ∨ journal.phase = .planned ∨ journal.phase = .blockedRecovery)
    (hpoint : ∀ bundleId, point ≠ .bundled bundleId)
    (hstl : point.settled → planned.affectedPaths = []) (live : Path → Fingerprint)
    (draft : ApplyJournal) (before : Point) : Resuming u reading planned
      (Run.write { disk := { disk with live }, journal := draft, point := before } journal point) := by
  have hsto : ∀ found : Disk, Stored u reading planned found journal := fun found => by
    refine ⟨hjrn, fun bundleId hsome => ?_, fun _ => hsafe⟩
    rw [hid] at hsome
    cases hsome
  refine ⟨hsto _, ?_, fun bundleId hbund => absurd hbund (hpoint bundleId),
    fun hpast => .inr (hstl hpast), ?_, h.targetReason href hplan⟩
  · intro stored hdisk
    cases hdisk
    exact hsto _
  intro p displaced hdsp
  rw [h.evidence] at hdsp
  cases hdsp

lemma Conditions.journal {journal : ApplyJournal} (h : Conditions u c a s disk)
    (hplan : planJournal u c hashes a s = some journal) : Planned u a s journal :=
  planJournal_planned h.given (fun inventory hinv =>
    ⟨h.apart inventory hinv, h.named inventory hinv⟩) hplan

/-- The plan is written, or the vault changes. -/
lemma Begins.step (h : Begins a s disk) (hcond : Conditions u c a s disk) (live : Path → Fingerprint)
    (hstep : (begin u c a s { disk with live }).step u c hashes reading a s label = some next) :
    (∃ live', next = begin u c a s { disk with live := live' }) ∨
      ∃ planned, Planned u a s planned ∧ Resuming u reading planned next ∧ next.point ≠ .start := by
  have hpoint : (begin u c a s { disk with live }).point = .start := rfl
  cases label with
  | plan =>
    right
    rw [Run.step, if_neg (not_not_intro hpoint)] at hstep
    split at hstep
    · cases hstep
      have hpla := draftJournal_planned (c := c) hcond.given
      refine ⟨_, hpla, ?_, by rintro ⟨⟩⟩
      refine h.resuming hcond.ref hpla (hpla.continues.update .committed none none none)
        rfl (.inl rfl) ?_ (fun _ => rfl) live _ _
      rintro other ⟨⟩
    · obtain ⟨planned, hplan, rfl⟩ := Option.map_eq_some_iff.mp hstep
      have hpla := hcond.journal hplan
      refine ⟨planned, hpla, ?_, by rintro ⟨⟩⟩
      refine h.resuming hcond.ref hpla hpla.continues hpla.unnamed (.inr (.inl hpla.phase)) ?_ ?_ live _ _
      · rintro other ⟨⟩
      · rintro ⟨⟩
  | vault live' =>
    cases hstep
    exact .inl ⟨live', rfl⟩
  | copyFile filePath =>
    rw [Run.step] at hstep
    split at hstep
    · simp [hpoint] at hstep
    · cases hstep
  | copyInto dirPath child =>
    rw [Run.step] at hstep
    split at hstep
    · cases hstep
    · simp [hpoint] at hstep
  | _ => simp [Run.step, Run.ready, hpoint] at hstep

/-- Wherever the process stops, the apply can be resumed. -/
lemma Begins.resumable (h : Begins a s disk) (hcond : Conditions u c a s disk) (live : Path → Fingerprint)
    (hcar : isCarefulRun u c hashes reading a s (begin u c a s { disk with live }) labels)
    (hrun : (begin u c a s { disk with live }).run u c hashes reading a s labels = some next) :
    Resumable u reading next.disk := by
  induction labels generalizing live with
  | nil =>
    cases hrun
    intro stored hdisk
    rw [h.journal] at hdisk
    cases hdisk
  | cons label labels ih =>
    obtain ⟨middle, hstep, hrest⟩ := bind_eq_some_iff.mp hrun
    rcases h.step hcond live hstep with ⟨live', rfl⟩ | ⟨planned, hplan, hmid, hstrt⟩
    · exact ih live' (isCarefulRun_cons hcar hstep).2 hrest
    · exact (hmid.steps hcond.given hplan hstrt (isCarefulRun_cons hcar hstep).2 hrest).resumable hplan

/-- Wherever a careful run stops, the apply can be resumed. -/
theorem apply_resumable {disk : Disk} {labels : List Label} (hconditions : Conditions u c a s disk)
    (hbegins : Begins a s disk) (hcareful : isCarefulRun u c hashes reading a s (begin u c a s disk) labels = true)
    (hrun : (begin u c a s disk).run u c hashes reading a s labels = some next) : Resumable u reading next.disk :=
  hbegins.resumable hconditions disk.live hcareful hrun

end Runs

section Note

def targetCommit : String := "bbbbbbbbbbbbbbbbbbbbbbbbbbbbbbbbbbbbbbbb"

def zeros (n : Nat) : String := String.ofList (List.replicate n '0')

def notePull (rebuild : Bool) : Arguments where
  targetMain := targetCommit
  changedPaths := [⟨"a.md"⟩]
  allowDestructive := true
  extraAffectedPaths := []
  requireCleanVisibleState := !rebuild
  directoryIntents := []
  explicitDirectories := []
  eventSeq := some 1
  confirmedDirectoryRecovery := none
  targetFileSizes := []
  consentBaselineBundleId := none
  preserveConsentLocalPaths := false
  rebuild
  catchupExpectedTree := none
  catchupPreservedPaths := []
  catchupLegacyStrict := false
  deltaApply := false

def noteState : ClientState where
  vaultId := some "vault"
  deviceId := some "device"
  localMain := some mainCommit
  serverDeviceRef := some mainCommit

def noteSurroundings : Surroundings where
  applyId := { time := 1700000000000, nonce := 0 }
  state := noteState
  policy := { oid := none, ignores := fun _ _ => false, entries := [(⟨"a.md"⟩, mainCommit)] }
  hasDirectoryWork := false
  authoringBase := some mainCommit
  authoringTree := [(⟨"a.md"⟩, zeros 40)]
  refOnlyEligible := false
  deltaEligible := false
  isFile := fun p => p = ⟨"a.md"⟩
  vault := MaterialisedScan.materialise (MaterialisedScan.oneFile "a.md" [104]) (by decide)
  ctime := fun _ => none
  consentRecords := fun _ => none
  attempts := [some fun _ => .file [104]]
  visibleTrees := [[(⟨"a.md"⟩, zeros 40)]]

def noteDisk : Disk where
  journal := none
  state := noteState
  pendingAcknowledgement := none
  mainRef := some mainCommit
  hasCommit := fun commit => commit = mainCommit || commit = targetCommit
  bundles := []
  evidence := []
  live := fun p => if p = ⟨"a.md"⟩ then .file (zeros 64) (zeros 40) else .missing

def noteReading : BundleReading where
  bundleChecksums := fun _ => zeros 64
  fileBufferBudgetBytes := 16777216

def noteBundle : BundleId where
  time := 1700000000001
  nonce := 1

/-- Up to the writing of the note's evidence. -/
def noteLabels : List Label :=
  [.plan, .publishBundle noteBundle [], .recordBundle, .startWriting, .copyFile ⟨"a.md"⟩]

lemma begins_note (rebuild : Bool) : Begins (notePull rebuild) noteSurroundings noteDisk :=
  ⟨rfl, rfl, rfl, rfl, rfl⟩

lemma conditions_note (rebuild : Bool) : Conditions asciiSegmentNormalization
    codePointCollation (notePull rebuild) noteSurroundings noteDisk := by
  have hgiven : Given asciiSegmentNormalization (notePull rebuild) noteSurroundings := by
    have htgt : isGitObjectId targetCommit = true := by decide +kernel
    refine ⟨htgt, by decide +kernel, by decide, by decide, by decide, ?_, ?_, ?_, ?_, ?_, ?_⟩
    all_goals
      intro x hx
      cases hx
  have hnote : ∀ inventory, localVaultInventory asciiSegmentNormalization codePointCollation
      (notePull rebuild) noteSurroundings = some inventory → inventory.files = [⟨"a.md"⟩] := by
    intro inventory hinv
    have hfound : (localVaultInventory asciiSegmentNormalization codePointCollation
        (notePull rebuild) noteSurroundings).map (·.files) = some [⟨"a.md"⟩] := rfl
    rw [hinv] at hfound
    exact Option.some.inj hfound
  have hret : ∀ inventory, retainedPaths asciiSegmentNormalization codePointCollation
      (notePull rebuild) noteSurroundings inventory = [] := by
    intro inventory
    simp [retainedPaths, localOnlyApplyPaths, noteSurroundings, sort, sortBy]
  have hsel : ∀ p, Selected asciiSegmentNormalization (notePull rebuild) noteSurroundings p →
      p = ⟨"a.md"⟩ := by
    rintro p (⟨hmem, -⟩ | ⟨hmem⟩ | ⟨hmem⟩ | ⟨hmem, -⟩)
    · exact mem_singleton.mp hmem
    · cases hmem
    · cases hmem
    · exact congrArg Prod.fst (mem_singleton.mp hmem)
  have hgone : ∀ p, ¬ Gone noteSurroundings p := by
    rintro p ⟨hprev, htgt⟩
    exact htgt (mem_sort.mp hprev)
  refine ⟨hgiven, fun inventory _ => ?_, fun inventory hinv p hp => ?_, ?_⟩
  · constructor <;>
      · intros
        simp_all
  · have hp : p = ⟨"a.md"⟩ := by
      rcases hp with hp | hp | ⟨hp, -⟩
      · exact hsel p hp
      · exact absurd hp (hgone p)
      · rw [hnote inventory hinv] at hp
        exact mem_singleton.mp hp
    rw [hp]
    decide
  · rintro ref href
    exact .inr href

/-- The pull is stopped after it has copied the note. -/
theorem note_pull_resumable :
    ∃ run, (begin asciiSegmentNormalization codePointCollation (notePull false) noteSurroundings
        noteDisk).run asciiSegmentNormalization codePointCollation zeroHashes noteReading
        (notePull false) noteSurroundings noteLabels = some run ∧
      Resumable asciiSegmentNormalization noteReading run.disk := by
  have hcar : isCarefulRun asciiSegmentNormalization codePointCollation zeroHashes noteReading
      (notePull false) noteSurroundings (begin asciiSegmentNormalization codePointCollation
        (notePull false) noteSurroundings noteDisk) noteLabels = true := by
    decide +kernel
  exact ⟨_, rfl, apply_resumable (conditions_note false) (begins_note false) hcar rfl⟩

/-- The journal of a rebuild that is stopped after it has named its bundle is refused. -/
theorem note_rebuild_refused :
    ¬ ∀ (u : SegmentNormalization) (c : Collation) (hashes : FileHashes) (reading : BundleReading)
      (a : Arguments) (s : Surroundings) (disk : Disk) (labels : List Label) (run : Run),
      Given u a s → Begins a s disk → disk.mainRef = disk.state.localMain →
      (begin u c a s disk).run u c hashes reading a s labels = some run → Resumable u reading run.disk := by
  intro hclaim
  have hrun : ∃ run, (begin asciiSegmentNormalization codePointCollation (notePull true)
      noteSurroundings noteDisk).run asciiSegmentNormalization codePointCollation zeroHashes
      noteReading (notePull true) noteSurroundings
        [.plan, .publishBundle noteBundle [], .recordBundle] = some run ∧
      (run.disk.journal.bind fun journal =>
        applyRecoveryValidationReason asciiSegmentNormalization noteReading run.disk journal)
        = some .identityMismatch := ⟨_, rfl, by decide +kernel⟩
  obtain ⟨run, hrun, hreas⟩ := hrun
  have hres := hclaim _ _ _ _ _ _ _ _ run (conditions_note true).given (begins_note true) rfl hrun
  obtain ⟨stored, hsto, hreas⟩ := bind_eq_some_iff.mp hreas
  obtain ⟨journal, hread, hnone⟩ := hres stored hsto
  have hsame : journal = stored := by
    rw [parseApplyJournal] at hread
    grind
  rw [hsame, hreas] at hnone
  cases hnone

end Note

end ApplyJournals
