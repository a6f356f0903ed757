import Obts.ApplyPlans

/-!
# Runs of an apply

An apply writes its journal, saves what it will overwrite in a bundle, writes the target into the vault,
moves the refs and cleans up. Each label is one durable write, or a change that others make to the
vault; the process may stop after any of them.
-/
namespace ApplyJournals

open InsertionOrder SlashPath ClientPaths StoredIntents
open DirectoryRecovery (Fingerprint FileHashes)

/-- How far the apply has come; a bundle may be published before the journal names it. -/
inductive Point where
  | start
  | planned
  | bundled (bundleId : BundleId)
  | recorded
  | writing
  | verifying
  | refMoved
  | committed
  | ended
  deriving DecidableEq

/-- The disk, and the journal as the process holds it. -/
structure Run where
  disk : Disk
  journal : ApplyJournal
  point : Point

inductive Label where
  | plan
  | defer (targetMatchedPaths localPaths : List Path)
  | setAside (localPaths : List Path)
  | refuseDestructive
  | publishBundle (bundleId : BundleId) (contents : List (String × List UInt8))
  | recordBundle
  | bundleFailed (named : Bool)
  | preflightUnverified
  | inventoryChanged
  | startWriting
  | copyFile (filePath : Path)
  | copyDirectory (dirPath : Path)
  | copyInto (dirPath child : Path)
  | verify
  | updateRef
  | commit
  | writeState
  | finishTail (lastCompletedStep : String)
  | acknowledge
  | archiveEvidence
  | clearJournal
  /-- The apply, the user or another program changes the vault. -/
  | vault (live : Path → Fingerprint)

def finalizeRecoveryBundle (reading : BundleReading) (state : ClientState) (bundleId : BundleId)
    (operationType : Operation) (journal : ApplyJournal) (contents : List (String × List UInt8)) : Bundle :=
  let files : BundleFiles :=
    { complete := some bundleId
      manifest := some {
        bundleId
        vaultId := (nonEmpty state.vaultId).getD "unknown"
        deviceId := (nonEmpty state.deviceId).getD "unknown"
        operationType
        applyId := some journal.applyId
        targetMain := journal.targetMain
        affectedPaths := journal.affectedPaths }
      journal := some journal
      contents }
  { files, checksums := some (reading.bundleChecksums files) }

/-- The journal is replaced on disk. -/
def Run.write (run : Run) (journal : ApplyJournal) (point : Point) : Run :=
  { disk := { run.disk with journal := some journal }, journal, point }

def Run.withEvidence (run : Run) (filePath : Path) (evidence : Evidence) : Run :=
  { run with disk := { run.disk with evidence := set run.disk.evidence filePath evidence } }

/-- Nothing is left to save. -/
def Run.ready (run : Run) : Bool :=
  run.point = .recorded || run.point = .planned && run.journal.affectedPaths.isEmpty

section Steps
variable (u : SegmentNormalization) (c : Collation) (hashes : FileHashes) (reading : BundleReading)
variable (a : Arguments) (s : Surroundings)

/-- A path that is deferred belongs to the apply or was listed in the vault, whose listing admits safe
paths only. -/
def reports (journal : ApplyJournal) (p : Path) : Bool :=
  journal.affectedPaths.contains p || journal.affectedPaths.any (fun affected => affected.startsWithDir p) ||
  journal.directoryIntents.any (fun intent => intent.path = p) ||
  journal.explicitDirectories.contains p || (targetFiles s).contains p || isSafeJournalPath u p

def recordDeferredApplyPaths (run : Run) (targetMatchedPaths localPaths : List Path) : Run :=
  let deferring := run.journal.deferring targetMatchedPaths localPaths
  if deferring.deferredLocalPaths = run.journal.deferredLocalPaths then run
  else run.write deferring run.point

def begin (disk : Disk) : Run :=
  { disk, journal := draftJournal u c a s, point := .start }

def Run.step (run : Run) : Label → Option Run
  | .plan =>
    if run.point ≠ .start then none
    else if ordinary u c a s && s.refOnlyEligible then
      some (run.write { draftJournal u c a s with phase := .committed } .committed)
    else (planJournal u c hashes a s).map fun journal => run.write journal .planned
  | .defer targetMatchedPaths localPaths =>
    if (run.point = .planned || run.point = .recorded || run.point = .writing ||
        run.point = .verifying) && localPaths.all (reports u s run.journal) then
      some (recordDeferredApplyPaths run targetMatchedPaths localPaths)
    else none
  | .setAside localPaths =>
    if run.ready && localPaths.all (reports u s run.journal) then
      some { run with journal := run.journal.deferring [] localPaths }
    else none
  | .refuseDestructive =>
    if run.point = .planned && !run.journal.affectedPaths.isEmpty && !a.allowDestructive then
      some (run.write { run.journal with
        phase := .blockedRecovery
        redactedErrorCategory := some "destructive_apply_not_allowed" } .ended)
    else none
  | .publishBundle bundleId contents =>
    if run.point = .planned && !run.journal.affectedPaths.isEmpty && a.allowDestructive then
      some { run with
        disk := { run.disk with
          bundles := set run.disk.bundles bundleId
            (finalizeRecoveryBundle reading run.disk.state bundleId .pullApply run.journal contents) }
        point := .bundled bundleId }
    else none
  | .recordBundle =>
    match run.point with
    | .bundled bundleId =>
      some (run.write { run.journal with
        recoveryBundleId := some bundleId
        phase := .recoveryBundleWritten
        lastCompletedStep := some "recovery_bundle" } .recorded)
    | _ => none
  | .bundleFailed named =>
    match run.point with
    | .planned =>
      if run.journal.affectedPaths.isEmpty || named then none
      else some (run.write { run.journal with
        phase := .blockedRecovery
        redactedErrorCategory := some "recovery_bundle_failed" } .ended)
    | .bundled bundleId =>
      some (run.write { run.journal with
        recoveryBundleId := if named then some bundleId else none
        phase := .blockedRecovery
        lastCompletedStep := if named then some "recovery_bundle" else run.journal.lastCompletedStep
        redactedErrorCategory := some "recovery_bundle_failed" } .ended)
    | _ => none
  | .preflightUnverified =>
    if run.ready then
      some (run.write { run.journal with
        phase := .blockedRecovery
        redactedErrorCategory := some "preflight_hash_changed" } .ended)
    else none
  | .inventoryChanged =>
    if run.ready && a.confirmedDirectoryRecovery.isSome then
      some { run with disk := { run.disk with journal := none }, point := .ended }
    else none
  | .startWriting =>
    if run.ready then some (run.write { run.journal with phase := .writingFiles } .writing)
    else none
  | .copyFile filePath =>
    match valueAt run.disk.evidence filePath, run.disk.live filePath with
    | none, .file sha256 oid =>
      if run.point = .writing && (valueAt run.journal.preflightSha256 filePath).isSome then
        some (run.withEvidence filePath { fingerprint := .file sha256 oid, files := [], directories := [] })
      else none
    | _, _ => none
  | .copyDirectory dirPath =>
    if run.point = .writing && valueAt run.journal.preflightFingerprints dirPath = some .directory &&
        (valueAt run.disk.evidence dirPath).isNone then
      some (run.withEvidence dirPath { fingerprint := .directory, files := [], directories := [] })
    else none
  | .copyInto dirPath child =>
    match valueAt run.disk.evidence dirPath with
    | none => none
    | some evidence =>
      if run.point = .writing && evidence.fingerprint = .directory && child.startsWithDir dirPath then
        match run.disk.live child with
        | .file sha256 oid =>
          some (run.withEvidence dirPath { evidence with files := evidence.files ++ [(child, .file sha256 oid)] })
        | .directory =>
          some (run.withEvidence dirPath { evidence with directories := evidence.directories ++ [child] })
        | _ => none
      else none
  | .verify =>
    if run.point = .writing then
      some (run.write { run.journal with
        phase := .verifying, lastCompletedStep := some "files_written" } .verifying)
    else none
  | .updateRef =>
    if run.point = .verifying then
      some { run with disk := { run.disk with mainRef := some a.targetMain }, point := .refMoved }
    else if run.point = .committed then
      some { run with disk := { run.disk with mainRef := some a.targetMain } }
    else none
  | .commit =>
    if run.point = .refMoved then
      some (run.write { run.journal with
        phase := .committed, lastCompletedStep := some "refs_updated" } .committed)
    else none
  | .writeState =>
    if run.point = .committed then
      some { run with disk := { run.disk with
        state := { run.disk.state with localMain := some a.targetMain } } }
    else none
  | .finishTail lastCompletedStep =>
    if run.point = .committed then
      some (run.write { run.journal with lastCompletedStep := some lastCompletedStep } .committed)
    else none
  | .acknowledge =>
    if run.point = .committed && run.disk.pendingAcknowledgement.all (· = a.targetMain) then
      some { run with disk := { run.disk with pendingAcknowledgement := some a.targetMain } }
    else none
  | .archiveEvidence =>
    if run.point = .committed then some { run with disk := { run.disk with evidence := [] } }
    else none
  | .clearJournal =>
    if run.point = .committed then
      some { run with disk := { run.disk with journal := none }, point := .ended }
    else none
  | .vault live => some { run with disk := { run.disk with live } }

def Run.run (run : Run) : List Label → Option Run
  | [] => some run
  | label :: labels => (run.step u c hashes reading a s label).bind fun next => next.run labels

end Steps

/-- The journal on disk, if there is one, is accepted, and nothing is held against it. -/
def Resumable (u : SegmentNormalization) (reading : BundleReading) (disk : Disk) : Prop :=
  ∀ stored, disk.journal = some stored → ∃ journal, parseApplyJournal u stored = some journal ∧
    applyRecoveryValidationReason u reading disk journal = none

end ApplyJournals
