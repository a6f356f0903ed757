import Obts.ClientPaths

/-!
# Change hints in the upload queue

The watcher records the paths that have changed in the file of the upload queue, and a fast capture
reads only these. Other operations rewrite the same file: some by an update of what is stored, some from
a copy that they read before, and one without naming the hints. A hint that is recorded after the
snapshot of an operation survives its write when the copy is still current.
-/
namespace ChangeHints

open InsertionOrder SlashPath ClientPaths Option List

inductive QueueStatus where
  | idle
  | queuedLocal
  | uploading
  | uploaded
  | merged
  | conflicted
  | blockedRecovery
  deriving DecidableEq

structure Queue where
  (pendingCommit expectedDeviceRef : Option String)
  status : QueueStatus
  (attempts changeSeq : Nat)
  changedPaths : List Path
  pendingProposalBase : Option String
  pendingRenamePairs : List (Path × Path)
  pendingCaptureId : Option String
  /-- The field may be missing, and it may be null. -/
  pendingUploadBase : Option (Option String)

/-- What a write names; the other fields are missing. -/
structure QueueWrite where
  (pendingCommit expectedDeviceRef : Option String)
  status : QueueStatus
  attempts : Nat
  changeSeq : Option Nat := none
  changedPaths : Option (List Path) := none
  pendingProposalBase : Option String := none
  pendingRenamePairs : Option (List (Path × Path)) := none
  pendingCaptureId : Option String := none
  pendingUploadBase : Option (Option String) := none

/-- A write of all that a queue holds. -/
def Queue.spread (queue : Queue) : QueueWrite where
  pendingCommit := queue.pendingCommit
  expectedDeviceRef := queue.expectedDeviceRef
  status := queue.status
  attempts := queue.attempts
  changeSeq := some queue.changeSeq
  changedPaths := some queue.changedPaths
  pendingProposalBase := queue.pendingProposalBase
  pendingRenamePairs := some queue.pendingRenamePairs
  pendingCaptureId := queue.pendingCaptureId
  pendingUploadBase := queue.pendingUploadBase

section Operations
variable (u : SegmentNormalization) (validIdentity : Queue → Bool)

def cleanPaths (paths : List Path) : List Path :=
  sort (ofList ((paths.filter (isSyncableVaultPath u)).map (normalizePath u)))

/-- The stored queue as it is read, unless the queued rename identity is invalid. -/
def readQueue (stored : Queue) : Option Queue :=
  if validIdentity stored then
    some { stored with changedPaths := cleanPaths u stored.changedPaths }
  else none

def normalizedQueueForWrite (queue : QueueWrite) (existing : Queue) : Queue :=
  let preserveChangedPaths := queue.pendingCommit = none ∧ queue.status = .queuedLocal
  let samePending := existing.pendingCommit = queue.pendingCommit
  let changedPaths := match queue.changedPaths with
    | some paths => paths
    | none => if preserveChangedPaths then existing.changedPaths else []
  { pendingCommit := queue.pendingCommit
    expectedDeviceRef := queue.expectedDeviceRef
    status := queue.status
    attempts := queue.attempts
    changeSeq := queue.changeSeq.getD existing.changeSeq
    changedPaths := cleanPaths u changedPaths
    pendingProposalBase :=
      if queue.pendingCommit.isSome then
        queue.pendingProposalBase.or (if samePending then existing.pendingProposalBase else none)
      else none
    pendingRenamePairs :=
      if queue.pendingCommit.isSome then
        queue.pendingRenamePairs.getD (if samePending then existing.pendingRenamePairs else [])
      else []
    pendingCaptureId :=
      if queue.pendingCommit.isSome then
        queue.pendingCaptureId.or (if samePending then existing.pendingCaptureId else none)
      else none
    pendingUploadBase :=
      if queue.pendingCommit.isSome then
        queue.pendingUploadBase.or (if samePending then existing.pendingUploadBase else none)
      else none }

def writeQueue (queue : QueueWrite) (stored : Queue) : Option Queue := do
  let existing ← readQueue u validIdentity stored
  return normalizedQueueForWrite u queue existing

def updateQueue (mutator : Queue → QueueWrite) (stored : Queue) : Option Queue := do
  let existing ← readQueue u validIdentity stored
  return normalizedQueueForWrite u (mutator existing) existing

/-- The paths that a hint adds. A change without paths can be anywhere. -/
def hintedPaths (paths : Option (List Path)) : List Path :=
  match paths with
  | none => []
  | some paths => (paths.map (normalizePath u)).filter (isSyncableVaultPath u)

def hintUpdate (changedPaths : List Path) (serverDeviceRef : Option String) (current : Queue) : QueueWrite :=
  { current.spread with
    expectedDeviceRef := current.expectedDeviceRef.or serverDeviceRef
    status := if current.pendingCommit.isSome then current.status else .queuedLocal
    changeSeq := some (current.changeSeq + 1)
    changedPaths := some (sort (ofList (current.changedPaths ++ changedPaths))) }

/-- The queue with the hint, or none when nothing is recorded. -/
def recordLocalChangeHint (paths : Option (List Path)) (serverDeviceRef : Option String)
    (stored : Queue) : Option Queue :=
  if paths.isSome ∧ hintedPaths u paths = [] then none
  else updateQueue u validIdentity (hintUpdate (hintedPaths u paths) serverDeviceRef) stored

/-- What is queued of a cohort of stale paths. -/
structure Cohort where
  (commit base : String)
  renamePairs : List (Path × Path)
  captureId : String
  held : List Path

inductive Task where
  /-- `queuePreservedLocalChanges`, with the preserved commit; none when the tree was accepted. -/
  | preserveLocal (commit : Option String) (expectedDeviceRef : Option String)
  /-- `queuePreservedDirectoryChanges`. -/
  | preserveDirectories (commit : String) (expectedDeviceRef : Option String)
  /-- `queueStaleCohort`. -/
  | staleCohort (cohort : Cohort) (expectedDeviceRef : Option String)
  /-- `recoverStaleProposalIntent`, for a recorded intent. -/
  | recoverIntent (cohort : Cohort) (serverDeviceRef : Option String)
  /-- `recoverStaleProposalIntent`, for a queued replacement. -/
  | replacement (commit : String)
  /-- `rebuildQueuedCommitForRootPolicy`. -/
  | rebuild (commit : String)
  /-- `clearQueuedHintIfUnchanged`. -/
  | clearHint (serverDeviceRef : Option String)

def preservedLocalWrite (commit expectedDeviceRef : Option String) (copy : Queue) : QueueWrite where
  pendingCommit := commit
  expectedDeviceRef := expectedDeviceRef
  status := if commit.isSome then .queuedLocal else .merged
  attempts := 0
  changeSeq := some copy.changeSeq
  changedPaths := some copy.changedPaths

def preservedDirectoryWrite (commit : String) (expectedDeviceRef : Option String) : QueueWrite where
  pendingCommit := some commit
  expectedDeviceRef := expectedDeviceRef
  status := .queuedLocal
  attempts := 0

def staleCohortUpdate (cohort : Cohort) (expectedDeviceRef : Option String) (queue : Queue) : QueueWrite :=
  { queue.spread with
    pendingCommit := some cohort.commit
    pendingProposalBase := some cohort.base
    pendingRenamePairs := some cohort.renamePairs
    pendingCaptureId := some cohort.captureId
    expectedDeviceRef := expectedDeviceRef
    changedPaths := some (sort (ofList (queue.changedPaths ++ cohort.held)))
    status := .queuedLocal
    attempts := 0 }

def recoveredIntentUpdate (cohort : Cohort) (serverDeviceRef : Option String) (queue : Queue) : QueueWrite :=
  { queue.spread with
    pendingCommit := some cohort.commit
    pendingProposalBase := some cohort.base
    pendingRenamePairs := some cohort.renamePairs
    pendingCaptureId := some cohort.captureId
    expectedDeviceRef := if queue.pendingCommit.isSome then queue.expectedDeviceRef else serverDeviceRef
    status := if queue.pendingCommit.isSome then queue.status else .queuedLocal }

def replacementWrite (commit : String) (copy : Queue) : QueueWrite :=
  { copy.spread with pendingCommit := some commit }

def rebuiltWrite (commit : String) (copy : Queue) : QueueWrite :=
  { copy.spread with
    pendingCommit := some commit
    status := .queuedLocal
    attempts := 0 }

/-- The queue without hints, or none when a hint has come since. -/
def clearQueuedHintIfUnchanged (expectedChangeSeq : Nat) (serverDeviceRef : Option String)
    (queue : Queue) : Option Queue :=
  if queue.pendingCommit ≠ none ∨ queue.status ≠ .queuedLocal ∨ queue.changeSeq ≠ expectedChangeSeq then
    none
  else some
    { pendingCommit := none
      expectedDeviceRef := serverDeviceRef
      status := .idle
      attempts := 0
      changeSeq := queue.changeSeq
      changedPaths := []
      pendingProposalBase := none
      pendingRenamePairs := []
      pendingCaptureId := none
      pendingUploadBase := none }

/-- The queue that a task writes, given the copy that it has read; none when it writes nothing. -/
def Task.write (task : Task) (copy : Option Queue) (stored : Queue) : Option Queue :=
  match task with
  | .preserveLocal commit expectedDeviceRef => do
    writeQueue u validIdentity (preservedLocalWrite commit expectedDeviceRef (← copy)) stored
  | .preserveDirectories commit expectedDeviceRef =>
    writeQueue u validIdentity (preservedDirectoryWrite commit expectedDeviceRef) stored
  | .staleCohort cohort expectedDeviceRef =>
    updateQueue u validIdentity (staleCohortUpdate cohort expectedDeviceRef) stored
  | .recoverIntent cohort serverDeviceRef =>
    updateQueue u validIdentity (recoveredIntentUpdate cohort serverDeviceRef) stored
  | .replacement commit => do
    writeQueue u validIdentity (replacementWrite commit (← copy)) stored
  | .rebuild commit => do
    writeQueue u validIdentity (rebuiltWrite commit (← copy)) stored
  | .clearHint serverDeviceRef => do
    let queue ← readQueue u validIdentity stored
    clearQueuedHintIfUnchanged (← copy).changeSeq serverDeviceRef queue

end Operations

/-- An operation under way, with the hints that were recorded since its snapshot was captured. -/
structure Active where
  task : Task
  copy : Option Queue
  since : List Path

/-- The stored queue, and the hints that were recorded since the snapshot of its last write. -/
structure State where
  queue : Queue
  active : Option Active
  since : List Path

inductive Event where
  | hint (paths : Option (List Path)) (serverDeviceRef : Option String)
  /-- An operation begins: its snapshot is captured. -/
  | start (task : Task)
  /-- The operation reads the queue. -/
  | read
  | write
  /-- The operation fails, or the client stops. -/
  | abort

/-- Tasks that write anew the commit that is pending: its snapshot is theirs. -/
def Task.ofPending : Task → Bool
  | .replacement _ | .rebuild _ => true
  | _ => false

/-- Tasks that have read the queue when they begin. -/
def Task.readsFirst : Task → Bool
  | .replacement _ | .rebuild _ | .clearHint _ => true
  | _ => false

section Runs
variable (u : SegmentNormalization) (validIdentity : Queue → Bool)

/-- One operation runs at a time, and hints come at any time. Hints are told apart by the paths that
the queue has for them. -/
def step (s : State) : Event → State
  | .hint paths serverDeviceRef =>
    match recordLocalChangeHint u validIdentity paths serverDeviceRef s.queue with
    | none => s
    | some queue =>
      { queue := queue
        active := s.active.map fun a =>
          { a with since := a.since ++ cleanPaths u (hintedPaths u paths) }
        since := s.since ++ cleanPaths u (hintedPaths u paths) }
  | .start task =>
    match s.active with
    | some _ => s
    | none =>
      let started : Active :=
        { task := task
          copy := if task.readsFirst then readQueue u validIdentity s.queue else none
          since := if task.ofPending then s.since else [] }
      { s with active := some started }
  | .read =>
    match s.active with
    | none => s
    | some a =>
      if a.task.readsFirst then s
      else { s with active := some { a with copy := readQueue u validIdentity s.queue } }
  | .write =>
    match s.active with
    | none => s
    | some a =>
      match a.task.write u validIdentity a.copy s.queue with
      | none => { s with active := none }
      | some queue => { queue := queue, active := none, since := a.since }
  | .abort => { s with active := none }

def run (s : State) (events : List Event) : State := events.foldl (step u validIdentity) s

end Runs

/-- Every hint that was recorded since the snapshot of the last write is in the queue. -/
def HintsKept (s : State) : Prop := ∀ p ∈ s.since, p ∈ s.queue.changedPaths

/-- A copy is written while it is current, and a write that names no hints when there are none since
its snapshot. -/
def Timely (s : State) : Event → Prop
  | .write => ∀ a, s.active = some a →
    match a.task with
    | .preserveLocal _ _ | .replacement _ | .rebuild _ =>
      ∀ copy, a.copy = some copy → copy.changeSeq = s.queue.changeSeq
    | .preserveDirectories _ _ => a.since = []
    | _ => True
  | _ => True

/-- Every event of a run is timely in the state that it meets. -/
def TimelyRun (u : SegmentNormalization) (validIdentity : Queue → Bool) (s : State) : List Event → Prop
  | [] => True
  | e :: events => Timely s e ∧ TimelyRun u validIdentity (step u validIdentity s e) events

variable {queue stored : Queue}

section Paths
variable {u : SegmentNormalization} {validIdentity : Queue → Bool} {paths : List Path} {p : Path}

variable (u) in
/-- A path as it is recorded. -/
def Recorded (p : Path) : Prop := Normal u p ∧ isSyncableVaultPath u p = true

lemma recorded_normalizePath (h : isSyncableVaultPath u p) : Recorded u (normalizePath u p) := by
  have hvalid : isValidVaultPath (normalizePath u p) = true := by
    simp only [isSyncableVaultPath, Bool.and_eq_true] at h
    exact h.1.1.1.1
  have hnorm := normal_normalizePath (isValidVaultPath_iff.mp hvalid).not_absolute
  refine ⟨hnorm, ?_⟩
  rw [isSyncableVaultPath, hnorm]
  exact h

lemma mem_cleanPaths : p ∈ cleanPaths u paths ↔ ∃ q ∈ paths, isSyncableVaultPath u q ∧ normalizePath u q = p := by
  rw [cleanPaths, mem_sort, mem_ofList, List.mem_map]
  simp [and_assoc]

lemma recorded_of_mem_cleanPaths (h : p ∈ cleanPaths u paths) : Recorded u p := by
  obtain ⟨q, -, hsync, rfl⟩ := mem_cleanPaths.mp h
  exact recorded_normalizePath hsync

/-- Cleaning keeps a path that is recorded. -/
lemma Recorded.mem_cleanPaths (h : Recorded u p) (hp : p ∈ paths) :
    p ∈ cleanPaths u paths := ChangeHints.mem_cleanPaths.mpr ⟨p, hp, h.2, h.1⟩

lemma cleanPaths_mono {paths' : List Path} (h : ∀ p ∈ paths, p ∈ paths')
    (hp : p ∈ cleanPaths u paths) : p ∈ cleanPaths u paths' := by
  obtain ⟨q, hq, hsync, hpath⟩ := ChangeHints.mem_cleanPaths.mp hp
  exact ChangeHints.mem_cleanPaths.mpr ⟨q, h q hq, hsync, hpath⟩

lemma readQueue_eq_some (h : readQueue u validIdentity stored = some queue) :
    queue = { stored with changedPaths := cleanPaths u stored.changedPaths } := by
  obtain ⟨-, h⟩ := ite_none_right_eq_some.mp h
  exact (Option.some.inj h).symm

/-- A write that names its hints and its number stores them. -/
lemma updateQueue_eq_some {mutator : Queue → QueueWrite}
    (h : updateQueue u validIdentity mutator stored = some queue) :
    ∃ existing, readQueue u validIdentity stored = some existing ∧
      queue = normalizedQueueForWrite u (mutator existing) existing := by
  obtain ⟨existing, hex, h⟩ := bind_eq_some_iff.mp h
  exact ⟨existing, hex, (Option.some.inj h).symm⟩

lemma normalizedQueueForWrite_named {queue : QueueWrite} {existing : Queue}
    (hpaths : queue.changedPaths = some paths) :
    (normalizedQueueForWrite u queue existing).changedPaths = cleanPaths u paths := by
  simp [normalizedQueueForWrite, hpaths]

lemma changedPaths_of_writeQueue {write : QueueWrite} (hpaths : write.changedPaths = some paths)
    (h : writeQueue u validIdentity write stored = some queue) : queue.changedPaths = cleanPaths u paths := by
  obtain ⟨existing, -, h⟩ := bind_eq_some_iff.mp h
  cases h
  exact normalizedQueueForWrite_named hpaths

end Paths

section Steps
variable {u : SegmentNormalization} {validIdentity : Queue → Bool} {s : State}

variable (u) in
/-- The hints since the snapshot of an operation are in the queue, and its copy is that of the queue as
long as no hint has come since it was read. -/
structure Active.Sound (queue : Queue) (a : Active) : Prop where
  recorded : ∀ p ∈ a.since, Recorded u p
  kept : ∀ p ∈ a.since, p ∈ queue.changedPaths
  copy : ∀ copy, a.copy = some copy → copy.changeSeq ≤ queue.changeSeq ∧
    (copy.changeSeq = queue.changeSeq → copy.changedPaths = cleanPaths u queue.changedPaths)
  cleared : ∀ copy serverDeviceRef, a.copy = some copy → a.task = .clearHint serverDeviceRef →
    copy.changeSeq = queue.changeSeq → a.since = []

variable (u) in
structure Steady (s : State) : Prop where
  recorded : ∀ p ∈ s.since, Recorded u p
  kept : HintsKept s
  active : ∀ a, s.active = some a → a.Sound u s.queue

/-- A recorded hint is added to the queue, and its number is a new one. -/
lemma recordLocalChangeHint_spec {paths : Option (List Path)} {serverDeviceRef : Option String}
    (h : recordLocalChangeHint u validIdentity paths serverDeviceRef stored = some queue) :
    queue.changeSeq = stored.changeSeq + 1 ∧
      ∀ p, p ∈ cleanPaths u stored.changedPaths ∨ p ∈ cleanPaths u (hintedPaths u paths) →
        p ∈ queue.changedPaths := by
  rw [recordLocalChangeHint] at h
  split at h
  · cases h
  obtain ⟨existing, hex, rfl⟩ := updateQueue_eq_some h
  obtain rfl := readQueue_eq_some hex
  refine ⟨rfl, fun p hp => ?_⟩
  rw [normalizedQueueForWrite_named rfl]
  rcases hp with hsto | hhint
  · refine (recorded_of_mem_cleanPaths hsto).mem_cleanPaths ?_
    rw [mem_sort, mem_ofList]
    exact mem_append_left _ hsto
  refine cleanPaths_mono (fun q hq => ?_) hhint
  rw [mem_sort, mem_ofList]
  exact mem_append_right _ hq

lemma Steady.hint (h : Steady u s) (paths : Option (List Path)) (serverDeviceRef : Option String) :
    Steady u (step u validIdentity s (.hint paths serverDeviceRef)) := by
  rw [step]
  cases hrecord : recordLocalChangeHint u validIdentity paths serverDeviceRef s.queue with
  | none => exact h
  | some queue =>
    obtain ⟨hseq, hmem⟩ := recordLocalChangeHint_spec hrecord
    have hrec : ∀ since : List Path, (∀ p ∈ since, Recorded u p) →
        ∀ p ∈ since ++ cleanPaths u (hintedPaths u paths), Recorded u p := by
      intro since hsince p hp
      rcases mem_append.mp hp with hp | hp
      · exact hsince p hp
      · exact recorded_of_mem_cleanPaths hp
    have hkept : ∀ since : List Path, (∀ p ∈ since, Recorded u p) → (∀ p ∈ since, p ∈ s.queue.changedPaths) →
        ∀ p ∈ since ++ cleanPaths u (hintedPaths u paths), p ∈ queue.changedPaths := by
      intro since hsince hold p hp
      rcases mem_append.mp hp with hp | hp
      · exact hmem p (Or.inl ((hsince p hp).mem_cleanPaths (hold p hp)))
      · exact hmem p (Or.inr hp)
    refine ⟨hrec _ h.recorded, hkept _ h.recorded h.kept, fun a ha => ?_⟩
    obtain ⟨old, hold, rfl⟩ := map_eq_some_iff.mp ha
    have hsound := h.active old hold
    -- the number has grown, so no copy has it
    have hlater : ∀ copy, old.copy = some copy → copy.changeSeq < queue.changeSeq := by
      intro copy hcopy
      have hle := (hsound.copy copy hcopy).1
      omega
    refine ⟨hrec _ hsound.recorded, hkept _ hsound.recorded hsound.kept, ?_, ?_⟩
    · intro copy hcopy
      exact ⟨(hlater copy hcopy).le, fun heq => absurd heq (hlater copy hcopy).ne⟩
    · intro copy _ hcopy _ heq
      exact absurd heq (hlater copy hcopy).ne

/-- A copy that has just been read. -/
lemma copy_of_readQueue {copy : Queue} (h : readQueue u validIdentity queue = some copy) :
    copy.changeSeq ≤ queue.changeSeq ∧
      (copy.changeSeq = queue.changeSeq → copy.changedPaths = cleanPaths u queue.changedPaths) := by
  obtain rfl := readQueue_eq_some h
  exact ⟨le_rfl, fun _ => rfl⟩

lemma Steady.start (h : Steady u s) (task : Task) : Steady u (step u validIdentity s (.start task)) := by
  rw [step]
  cases hact : s.active with
  | some a => exact h
  | none =>
    refine ⟨h.recorded, h.kept, fun a ha => ?_⟩
    cases ha
    constructor
    · intro p hp
      cases hpend : task.ofPending with
      | true =>
        simp only [hpend, if_true] at hp
        exact h.recorded p hp
      | false => simp only [hpend, Bool.false_eq_true, if_false, not_mem_nil] at hp
    · intro p hp
      cases hpend : task.ofPending with
      | true =>
        simp only [hpend, if_true] at hp
        exact h.kept p hp
      | false => simp only [hpend, Bool.false_eq_true, if_false, not_mem_nil] at hp
    · intro copy hcopy
      cases hreads : task.readsFirst with
      | true =>
        simp only [hreads, if_true] at hcopy
        exact copy_of_readQueue hcopy
      | false => simp only [hreads, Bool.false_eq_true, if_false, reduceCtorEq] at hcopy
    · rintro copy serverDeviceRef - htask -
      obtain rfl : task = .clearHint serverDeviceRef := htask
      rfl

lemma Steady.read (h : Steady u s) : Steady u (step u validIdentity s .read) := by
  rw [step]
  cases hact : s.active with
  | none => exact h
  | some a =>
    have hsound := h.active a hact
    simp only
    split
    · exact h
    rename_i hreads
    refine ⟨h.recorded, h.kept, fun a' ha' => ?_⟩
    cases ha'
    refine ⟨hsound.recorded, hsound.kept, fun copy hcopy => copy_of_readQueue hcopy, ?_⟩
    intro copy serverDeviceRef _ htask _
    have hclear : a.task = .clearHint serverDeviceRef := htask
    rw [hclear] at hreads
    exact absurd rfl hreads

/-- A timely write leaves the hints since its snapshot in the queue. -/
lemma kept_of_write {a : Active} (hsound : a.Sound u s.queue) (hact : s.active = some a)
    (htim : Timely s .write) (h : a.task.write u validIdentity a.copy s.queue = some queue) :
    ∀ p ∈ a.since, p ∈ queue.changedPaths := by
  have hcond := htim a hact
  obtain ⟨task, copy, since⟩ := a
  have hclean : ∀ p ∈ since, p ∈ cleanPaths u s.queue.changedPaths := fun p hp =>
    (hsound.recorded p hp).mem_cleanPaths (hsound.kept p hp)
  -- a current copy has what the queue has
  have hcop : ∀ q, copy = some q → q.changeSeq = s.queue.changeSeq →
      ∀ p ∈ since, p ∈ cleanPaths u q.changedPaths := by
    intro q hq hseq p hp
    rw [(hsound.copy q hq).2 hseq]
    exact (hsound.recorded p hp).mem_cleanPaths (hclean p hp)
  cases task with
  | preserveLocal | replacement | rebuild =>
    obtain ⟨q, hq, h⟩ := bind_eq_some_iff.mp h
    rw [changedPaths_of_writeQueue rfl h]
    exact hcop q hq (hcond q hq)
  | preserveDirectories commit expectedDeviceRef =>
    intro p hp
    have hnone : since = [] := hcond
    rw [hnone] at hp
    cases hp
  | staleCohort cohort expectedDeviceRef =>
    obtain ⟨existing, hex, rfl⟩ := updateQueue_eq_some h
    obtain rfl := readQueue_eq_some hex
    intro p hp
    rw [normalizedQueueForWrite_named rfl]
    refine (hsound.recorded p hp).mem_cleanPaths ?_
    rw [mem_sort, mem_ofList]
    exact mem_append_left _ (hclean p hp)
  | recoverIntent cohort serverDeviceRef =>
    obtain ⟨existing, hex, rfl⟩ := updateQueue_eq_some h
    obtain rfl := readQueue_eq_some hex
    intro p hp
    exact (hsound.recorded p hp).mem_cleanPaths (hclean p hp)
  | clearHint serverDeviceRef =>
    obtain ⟨existing, hex, h⟩ := bind_eq_some_iff.mp h
    obtain rfl := readQueue_eq_some hex
    obtain ⟨q, hq, h⟩ := bind_eq_some_iff.mp h
    obtain ⟨hsame, h⟩ := ite_none_left_eq_some.mp h
    simp only [not_or, not_not] at hsame
    have hnone : since = [] := hsound.cleared q serverDeviceRef hq rfl hsame.2.2.symm
    intro p hp
    rw [hnone] at hp
    cases hp

lemma Steady.write (h : Steady u s) (htim : Timely s .write) : Steady u (step u validIdentity s .write) := by
  rw [step]
  cases hact : s.active with
  | none => exact h
  | some a =>
    have hsound := h.active a hact
    simp only
    cases hwrite : a.task.write u validIdentity a.copy s.queue with
    | none => exact ⟨h.recorded, h.kept, fun a' ha' => by cases ha'⟩
    | some queue =>
      exact ⟨hsound.recorded, kept_of_write hsound hact htim hwrite, fun a' ha' => by cases ha'⟩

lemma Steady.step (h : Steady u s) {e : Event} (htim : Timely s e) : Steady u (step u validIdentity s e) := by
  cases e with
  | hint paths serverDeviceRef => exact h.hint paths serverDeviceRef
  | start task => exact h.start task
  | read => exact h.read
  | write => exact h.write htim
  | abort => exact ⟨h.recorded, h.kept, fun a ha => by cases ha⟩

lemma Steady.run (h : Steady u s) {events : List Event}
    (htim : TimelyRun u validIdentity s events) : Steady u (run u validIdentity s events) := by
  induction events generalizing s with
  | nil => exact h
  | cons e events ih => exact ih (h.step htim.1) htim.2

end Steps

/-- No operation is under way. -/
def startState (queue : Queue) : State := { queue := queue, active := none, since := [] }

lemma steady_startState (u : SegmentNormalization) (queue : Queue) : Steady u (startState queue) where
  recorded _ hp := absurd hp List.not_mem_nil
  kept _ hp := absurd hp List.not_mem_nil
  active _ ha := by cases ha

/-- In a run in which copies are written while they are current, every hint that was recorded since
the snapshot of the last write is in the queue. -/
theorem hintsKept_run {u : SegmentNormalization} {validIdentity : Queue → Bool} {queue : Queue}
    {events : List Event} (htimely : TimelyRun u validIdentity (startState queue) events) :
    HintsKept (run u validIdentity (startState queue) events) :=
  ((steady_startState u queue).run htimely).kept

def idleQueue : Queue where
  pendingCommit := none
  expectedDeviceRef := none
  status := .idle
  attempts := 0
  changeSeq := 0
  changedPaths := []
  pendingProposalBase := none
  pendingRenamePairs := []
  pendingCaptureId := none
  pendingUploadBase := none

/-- A copy is read again after the hint, and then written. -/
theorem hintsKept_reread : HintsKept (run asciiSegmentNormalization (fun _ => true) (startState idleQueue)
      [.start (.preserveLocal (some "c") none), .hint (some [⟨"a.md"⟩]) none, .read, .write]) := by
  refine hintsKept_run ⟨trivial, trivial, trivial, ?_, trivial⟩
  intro a ha
  cases ha
  intro copy hcopy
  cases hcopy
  decide

/-- A hint comes while the directory changes of an apply are queued: the write names no hints. -/
theorem hint_lost : ¬ ∀ (u : SegmentNormalization) (validIdentity : Queue → Bool) (queue : Queue)
      (events : List Event), HintsKept (run u validIdentity (startState queue) events) := by
  intro hclaim
  have hkept := hclaim asciiSegmentNormalization (fun _ => true) idleQueue
    [.start (.preserveDirectories "c" none), .hint (some [⟨"a.md"⟩]) none, .write]
  have hmem := hkept ⟨"a.md"⟩ (by decide)
  exact absurd hmem (by decide)

end ChangeHints
