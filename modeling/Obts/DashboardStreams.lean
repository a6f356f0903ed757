import Mathlib.Data.List.Basic
import Obts.InsertionOrder
import Obts.LabelledRuns

/-!
# Dashboard streams

The server's side of the dashboard's event streams. What changed is marked on a stream, coalesced
until a timer fires, authorized again, and written as one frame; a reader that does not drain blocks
its stream. Marks arrive while an authorization is awaited, and flushes and heartbeats await theirs
independently of each other.
-/
namespace DashboardStreams

open List
open Bool (and_eq_true not_eq_true not_eq_true' or_eq_true)

structure Options where
  maxStreams : Nat := 128
  maxStreamsPerAccount : Nat := 8
  maxStreamsPerSession : Nat := 4
  maxVaultIdsPerMessage : Nat := 32

/-- What a commit means for the account of an owner. -/
structure OwnerImpact where
  account : Bool
  vaults : List String

structure DashboardImpact where
  owners : List (String × OwnerImpact)
  (sessions users : List String)

inductive Frame where
  | refresh
  | invalidate (account : Bool) (vaultIds : List String)
  | keepAlive

/-- What is marked: the account, or one of its vaults. -/
inductive Mark where
  | account
  | vault (vaultId : String)

/-- The frame says what was marked. -/
def Frame.contains (mark : Mark) : Frame → Bool
  | .invalidate account vaultIds => account || match mark with
    | .account => false
    | .vault vaultId => vaultIds.contains vaultId
  | _ => false

/-- The two functions that ask for an authorization and then write. -/
inductive Writer where
  | flush
  | heartbeat
  deriving DecidableEq

def Frame.writer : Frame → Option Writer
  | .refresh => none
  | .invalidate _ _ => some .flush
  | .keepAlive => some .heartbeat

/-- What happened to a stream. -/
inductive Entry where
  | marked (mark : Mark)
  | requested (writer : Writer)
  | answered (writer : Writer)
  | wrote (frame : Frame)

/-- How far a writer has come. An answer is there before its writer goes on. -/
inductive Stage where
  | idle
  | authorizing
  | answered (allowed : Bool)
  deriving DecidableEq

/-- How the sink takes a frame. A frame that is not accepted, or leaves too much to be written, is
written all the same and blocks the stream. -/
inductive Outcome where
  | gone
  | accepted
  | blocking

structure Stream where
  streamId : Nat
  (userId sessionId : String)
  closed : Bool := false
  blocked : Bool := false
  flush : Stage := .idle
  heartbeat : Stage := .idle
  account : Bool := false
  vaults : List String := []
  flushTimer : Bool := false
  stallTimer : Bool := false
  awaitsDrain : Bool := false
  /-- Authorizations that a commit asked for, which write nothing. -/
  checks : Nat := 0
  /-- Latest first. -/
  log : List Entry := []

namespace Stream

variable (stream : Stream)

def hasPending : Bool := stream.account || !stream.vaults.isEmpty

def closeStream : Stream :=
  if stream.closed then stream
  else { stream with
    closed := true
    flushTimer := false
    stallTimer := false
    account := false
    vaults := []
    awaitsDrain := false }

def schedule : Stream :=
  if stream.closed || stream.blocked || stream.flushTimer then stream
  else { stream with flushTimer := true }

/-- The loop of `mark`: whether the set overflows, at which the loop stops, and the set. -/
def addVaults (maxVaultIds : Nat) (vaults : List String) : List String → Bool × List String
  | [] => (false, vaults)
  | vaultId :: vaultIds =>
    let vaults := if vaultId ∈ vaults then vaults else vaults ++ [vaultId]
    if maxVaultIds < vaults.length then (true, vaults) else addVaults maxVaultIds vaults vaultIds

def marks (account : Bool) (vaultIds : List String) : List Mark :=
  (if account then [.account] else []) ++ vaultIds.map .vault

def mark (maxVaultIds : Nat) (account : Bool) (vaultIds : List String) (stream : Stream) : Stream :=
  if stream.closed then stream
  else
    let stream := { stream with
      account := stream.account || account
      log := ((marks account vaultIds).map Entry.marked).reverse ++ stream.log }
    let stream := if stream.account then stream else
      let (overflows, vaults) := addVaults maxVaultIds stream.vaults vaultIds
      { stream with account := overflows, vaults }
    let stream := if stream.account then { stream with vaults := [] } else stream
    if stream.hasPending then stream.schedule else stream

def write (frame : Frame) (outcome : Outcome) (stream : Stream) : Stream :=
  if stream.closed then stream
  else match outcome with
  | .gone => stream.closeStream
  | .accepted => { stream with log := .wrote frame :: stream.log }
  | .blocking =>
    let stream := { stream with
      log := .wrote frame :: stream.log
      blocked := true
      flushTimer := false }
    if !stream.stallTimer then { stream with stallTimer := true, awaitsDrain := true } else stream

def stage : Writer → Stage
  | .flush => stream.flush
  | .heartbeat => stream.heartbeat

def withStage (stage : Stage) : Writer → Stream
  | .flush => { stream with flush := stage }
  | .heartbeat => { stream with heartbeat := stage }

/-- A writer calls `authorize`. -/
def request (writer : Writer) (stream : Stream) : Stream :=
  { stream.withStage .authorizing writer with log := .requested writer :: stream.log }

/-- The flush timer fires: `flush` up to its authorization. -/
def flushFires : Stream :=
  let stream := { stream with flushTimer := false }
  if stream.closed || stream.blocked || stream.flush ≠ .idle then stream
  else if !stream.hasPending then stream
  else stream.request .flush

/-- `heartbeat` up to its authorization. -/
def heartbeatFires : Stream :=
  if stream.closed || stream.heartbeat ≠ .idle then stream else stream.request .heartbeat

/-- The authorization of a writer is answered: without authority the stream closes. -/
def answer (writer : Writer) (authorized : Bool) (stream : Stream) : Stream :=
  if authorized then
    { stream.withStage (.answered !stream.closed) writer with log := .answered writer :: stream.log }
  else { stream.closeStream.withStage (.answered false) writer with
    log := .answered writer :: stream.log }

/-- The authorization that a commit asked for is answered. -/
def answerCheck (authorized : Bool) (stream : Stream) : Stream :=
  let stream := { stream with checks := stream.checks - 1 }
  if authorized then stream else stream.closeStream

def vaultIdLe (left right : String) : Bool := decide (left ≤ right)

/-- `flush` after its authorization. -/
def flushResumes (allowed : Bool) (outcome : Outcome) (stream : Stream) : Stream :=
  if !allowed || stream.closed || stream.blocked then { stream with flush := .idle }
  else
    let account := stream.account
    let vaultIds := if account then [] else stream.vaults.mergeSort vaultIdLe
    let stream := { stream with account := false, vaults := [] }
    if !account && vaultIds.isEmpty then { stream with flush := .idle }
    else
      let stream := { stream.write (.invalidate account vaultIds) outcome with flush := .idle }
      if !stream.closed && stream.hasPending then stream.schedule else stream

/-- `heartbeat` after its authorization. -/
def heartbeatResumes (allowed : Bool) (outcome : Outcome) (stream : Stream) : Stream :=
  if !allowed || stream.closed || stream.blocked then { stream with heartbeat := .idle }
  else { stream.write .keepAlive outcome with heartbeat := .idle }

def drained : Stream :=
  let stream := { stream with awaitsDrain := false }
  if stream.closed then stream
  else
    let stream := { stream with stallTimer := false, blocked := false }
    if stream.hasPending then stream.schedule else stream

end Stream

section Hub
variable {Db : Type}

/-- The hub, and the commits that its store has not drained yet, as one transition. Streams stay in
the list when they close, since what they await is still answered. -/
structure Hub (Db : Type) where
  streams : List Stream := []
  closed : Bool := false
  pendingCommit : Option (Db × Db) := none

inductive Label (Db : Type) where
  | admitStream (streamId : Nat) (userId sessionId : String) (sameOrigin : Bool) (outcome : Outcome)
  | commit (previous current : Db)
  | drainCommits
  | broadcastAccountInvalidation
  | closeHub
  | flushTimer (streamId : Nat)
  | heartbeatTimer (streamId : Nat)
  | stallTimer (streamId : Nat)
  | answer (streamId : Nat) (writer : Writer) (authorized : Bool)
  | answerCheck (streamId : Nat) (authorized : Bool)
  | resume (streamId : Nat) (writer : Writer) (outcome : Outcome)
  | drain (streamId : Nat)
  | sinkClose (streamId : Nat)

namespace Hub

def openStreams (hub : Hub Db) : List Stream := hub.streams.filter fun stream => !stream.closed

variable (options : Options) (hub : Hub Db)

def hasCapacity (userId sessionId : String) : Bool :=
  hub.openStreams.length < options.maxStreams &&
    (hub.openStreams.filter fun stream => stream.userId = userId).length
      < options.maxStreamsPerAccount &&
    (hub.openStreams.filter fun stream => stream.sessionId = sessionId).length
      < options.maxStreamsPerSession

/-- Every stream that is not closed. -/
def mapOpen (f : Stream → Stream) : Hub Db :=
  { hub with streams := hub.streams.map fun stream => if stream.closed then stream else f stream }

/-- A step of one stream, where it is possible. -/
def onStream (streamId : Nat) (enabled : Stream → Bool) (f : Stream → Stream) : Option (Hub Db) :=
  if hub.streams.any fun stream => stream.streamId = streamId && enabled stream then
    some { hub with streams := hub.streams.map fun stream =>
      if stream.streamId = streamId ∧ enabled stream = true then f stream else stream }
  else none

def broadcast : Hub Db :=
  if hub.closed then hub else hub.mapOpen (Stream.mark options.maxVaultIdsPerMessage true [])

/-- What a commit does to one stream. -/
def applyImpact (impact : DashboardImpact) (stream : Stream) : Stream :=
  let marked := match impact.owners.find? fun owner => owner.1 = stream.userId with
    | some (_, owner) => stream.mark options.maxVaultIdsPerMessage owner.account owner.vaults
    | none => stream
  if impact.sessions.contains stream.sessionId || impact.users.contains stream.userId then
    { marked with checks := marked.checks + 1 }
  else marked

variable (computeDashboardImpact : Db → Db → List String → Option DashboardImpact)

/-- A comparison that throws refreshes every account and checks every session. -/
def onCommit
    (hub : Hub Db) (previous current : Db) : Hub Db :=
  match computeDashboardImpact previous current (hub.openStreams.map Stream.sessionId) with
  | some impact => hub.mapOpen (applyImpact options impact)
  | none => hub.mapOpen fun stream =>
    let marked := stream.mark options.maxVaultIdsPerMessage true []
    { marked with checks := marked.checks + 1 }

/-- The store's `publishCommit`. The hub listens while a stream is open. -/
def publishCommit (hub : Hub Db) (previous current : Db) : Hub Db :=
  match hub.pendingCommit with
  | some (earliest, _) => { hub with pendingCommit := some (earliest, current) }
  | none => if hub.openStreams.isEmpty then hub
    else { hub with pendingCommit := some (previous, current) }

def step (hub : Hub Db) : Label Db → Option (Hub Db)
  | .admitStream streamId userId sessionId sameOrigin outcome =>
    if sameOrigin = true ∧ hub.closed = false ∧ hub.hasCapacity options userId sessionId = true ∧
        streamId ∉ hub.streams.map Stream.streamId then
      let stream : Stream := { streamId, userId, sessionId }
      some { hub with streams := hub.streams ++ [stream.write .refresh outcome] }
    else none
  | .commit previous current => some (hub.publishCommit previous current)
  | .drainCommits => hub.pendingCommit.map fun (previous, current) =>
    { hub with pendingCommit := none }.onCommit options computeDashboardImpact previous current
  | .broadcastAccountInvalidation => some (hub.broadcast options)
  | .closeHub => some { hub.mapOpen Stream.closeStream with closed := true }
  | .flushTimer streamId => hub.onStream streamId Stream.flushTimer Stream.flushFires
  | .heartbeatTimer streamId =>
    hub.onStream streamId (fun stream => !stream.closed) Stream.heartbeatFires
  | .stallTimer streamId => hub.onStream streamId Stream.stallTimer Stream.closeStream
  | .answer streamId writer authorized =>
    hub.onStream streamId (fun stream => stream.stage writer = .authorizing) (Stream.answer writer authorized)
  | .answerCheck streamId authorized =>
    hub.onStream streamId (fun stream => 0 < stream.checks) (Stream.answerCheck authorized)
  | .resume streamId writer outcome =>
    hub.onStream streamId (fun stream => match stream.stage writer with
      | .answered _ => true
      | _ => false) fun stream => match writer, stream.stage writer with
      | .flush, .answered allowed => stream.flushResumes allowed outcome
      | .heartbeat, .answered allowed => stream.heartbeatResumes allowed outcome
      | _, _ => stream
  | .drain streamId => hub.onStream streamId Stream.awaitsDrain Stream.drained
  | .sinkClose streamId => hub.onStream streamId (fun stream => !stream.closed) Stream.closeStream

def run (options : Options) (computeDashboardImpact : Db → Db → List String → Option DashboardImpact)
    (hub : Hub Db) : List (Label Db) → Option (Hub Db)
  | [] => some hub
  | label :: labels =>
    (hub.step options computeDashboardImpact label).bind fun hub =>
      hub.run options computeDashboardImpact labels

end Hub

end Hub

/-- The mark is in no frame that was written since. -/
def Unsent (mark : Mark) (log : List Entry) : Prop :=
  ∃ later earlier, log = later ++ .marked mark :: earlier ∧
    ∀ frame, .wrote frame ∈ later → frame.contains mark = false

/-- The writer asked for an authorization since it wrote last. -/
def Requested (writer : Writer) (log : List Entry) : Prop :=
  ∃ later earlier, log = later ++ .requested writer :: earlier ∧
    ∀ frame, .wrote frame ∈ later → frame.writer ≠ some writer

/-- The writer asked for an authorization and was answered since it wrote last. -/
def Authorized (writer : Writer) (log : List Entry) : Prop :=
  ∃ later earlier, log = later ++ .answered writer :: earlier ∧
    (∀ frame, .wrote frame ∈ later → frame.writer ≠ some writer) ∧ Requested writer earlier

/-- Every frame but the first was written by a writer that was authorized to. -/
def AuthorizedFrames (log : List Entry) : Prop :=
  ∀ later frame earlier, log = later ++ .wrote frame :: earlier →
    earlier = [] ∨ ∃ writer, frame.writer = some writer ∧ Authorized writer earlier

/-- A flush will come: a timer is armed, a flush is under way that has yet to read what is pending,
or the stream is blocked and will be drained or closed. -/
def Stream.Coming (stream : Stream) : Prop :=
  stream.flushTimer = true ∨ stream.flush = .authorizing ∨ stream.flush = .answered true ∨
    stream.blocked = true ∧ stream.stallTimer = true

/-- The mark is in the set that the next flush writes. -/
def Stream.Holds (stream : Stream) : Mark → Prop
  | .account => stream.account = true
  | .vault vaultId => stream.account = true ∨ vaultId ∈ stream.vaults

/-- The writers' stages, and the frames written so far, as the log has them. -/
structure Logged (stream : Stream) : Prop where
  requested : ∀ writer, stream.stage writer = .authorizing → Requested writer stream.log
  answered : ∀ writer allowed, stream.stage writer = .answered allowed → Authorized writer stream.log
  refused : ∀ writer, stream.stage writer = .answered false → stream.closed = true
  authorized : AuthorizedFrames stream.log

/-- What holds whether or not something is scheduled. -/
structure Steady (stream : Stream) : Prop extends Logged stream where
  stalls : stream.closed = false → stream.blocked = true → stream.stallTimer = true
  held : stream.closed = false → ∀ mark, Unsent mark stream.log → stream.Holds mark

/-- What is pending is flushed: a timer is armed, a flush will read it, or the stream is blocked. -/
structure Sound (stream : Stream) : Prop extends Steady stream where
  pending : stream.closed = false → stream.hasPending = true →
    stream.flushTimer = true ∨ stream.flush ≠ .idle ∨ stream.blocked = true

section Logs
variable {mark : Mark} {writer : Writer} {entry : Entry} {log new : List Entry}

lemma unsent_cons (h : Unsent mark (entry :: log)) :
    entry = .marked mark ∨ Unsent mark log ∧ ∀ frame, entry = .wrote frame → frame.contains mark = false := by
  obtain ⟨later, earlier, heq, hlater⟩ := h
  cases later with
  | nil => exact .inl (cons.inj heq).1
  | cons first later =>
    obtain ⟨rfl, rfl⟩ := cons.inj heq
    exact .inr ⟨⟨later, earlier, rfl, fun frame hmem => hlater frame (mem_cons_of_mem _ hmem)⟩,
      fun frame hframe => hlater frame (hframe ▸ mem_cons_self)⟩

lemma Requested.append (h : Requested writer log)
    (hnew : ∀ frame, .wrote frame ∈ new → frame.writer ≠ some writer) : Requested writer (new ++ log) := by
  obtain ⟨later, earlier, rfl, hlater⟩ := h
  refine ⟨new ++ later, earlier, (append_assoc ..).symm, fun frame hmem => ?_⟩
  rcases mem_append.mp hmem with hmem | hmem
  · exact hnew frame hmem
  · exact hlater frame hmem

lemma Authorized.append (h : Authorized writer log)
    (hnew : ∀ frame, .wrote frame ∈ new → frame.writer ≠ some writer) : Authorized writer (new ++ log) := by
  obtain ⟨later, earlier, rfl, hlater, hreq⟩ := h
  refine ⟨new ++ later, earlier, (append_assoc ..).symm, fun frame hmem => ?_, hreq⟩
  rcases mem_append.mp hmem with hmem | hmem
  · exact hnew frame hmem
  · exact hlater frame hmem

/-- New entries that are no frames keep the frames authorized. -/
lemma AuthorizedFrames.append (h : AuthorizedFrames log) (hnew : ∀ frame, .wrote frame ∉ new) :
    AuthorizedFrames (new ++ log) := by
  intro later frame earlier heq
  rcases append_eq_append_iff.mp heq with ⟨middle, hlater, hlog⟩ | ⟨middle, hnew', hlog⟩
  · exact h middle frame earlier hlog
  cases middle with
  | nil => exact h [] frame earlier (by simpa using hlog.symm)
  | cons first middle =>
    obtain ⟨rfl, -⟩ := cons.inj hlog
    exact absurd (hnew' ▸ mem_append_right _ mem_cons_self) (hnew frame)

/-- A frame that is the first, or that its writer was authorized to write. -/
lemma AuthorizedFrames.wrote {frame : Frame} (h : AuthorizedFrames log)
    (hframe : log = [] ∨ ∃ writer, frame.writer = some writer ∧ Authorized writer log) :
    AuthorizedFrames (.wrote frame :: log) := by
  intro later other earlier heq
  cases later with
  | nil =>
    obtain ⟨hsame, rfl⟩ := cons.inj heq
    obtain rfl := Entry.wrote.inj hsame
    exact hframe
  | cons first later =>
    obtain ⟨-, rfl⟩ := cons.inj heq
    exact h later other earlier rfl

end Logs

section Streams
variable {stream : Stream} {maxVaultIds : Nat} {writer : Writer} {outcome : Outcome}
  {vaults : List String} {new : List Mark} {allowed : Bool}

lemma holds_of_eq {stream' : Stream} {mark : Mark} (h : stream.Holds mark)
    (hacc : stream'.account = stream.account) (hvs : stream'.vaults = stream.vaults) : stream'.Holds mark := by
  cases mark with
  | account => exact hacc.trans h
  | vault vaultId =>
    rcases h with h | h
    · exact .inl (hacc.trans h)
    · exact .inr (hvs ▸ h)

lemma Sound.closeStream (h : Sound stream) : Sound stream.closeStream := by
  unfold Stream.closeStream
  split
  · exact h
  · exact ⟨⟨{ h with refused := fun _ _ => rfl }, fun hopen => (by cases hopen),
      fun hopen => (by cases hopen)⟩, fun hopen => (by cases hopen)⟩

lemma schedule_fields (stream : Stream) :
    stream.schedule.closed = stream.closed ∧ stream.schedule.blocked = stream.blocked ∧
      stream.schedule.log = stream.log ∧ stream.schedule.stallTimer = stream.stallTimer ∧
      stream.schedule.account = stream.account ∧ stream.schedule.vaults = stream.vaults ∧
      ∀ writer, stream.schedule.stage writer = stream.stage writer := by
  unfold Stream.schedule
  split
  · exact ⟨rfl, rfl, rfl, rfl, rfl, rfl, fun _ => rfl⟩
  · exact ⟨rfl, rfl, rfl, rfl, rfl, rfl, fun writer => by cases writer <;> rfl⟩

lemma schedule_flushTimer (hopen : stream.closed = false) : stream.schedule.flushTimer ∨ stream.blocked := by
  unfold Stream.schedule
  split
  · rename_i hcond
    rw [hopen, Bool.false_or, or_eq_true] at hcond
    exact hcond.symm
  · exact .inl rfl

lemma Steady.schedule (h : Steady stream) : Sound stream.schedule := by
  obtain ⟨hcls, hblk, hlog, hstall, hacc, hvs, hstage⟩ := schedule_fields stream
  refine ⟨⟨⟨fun writer => ?_, fun writer => ?_, fun writer => ?_, ?_⟩, ?_, fun hopen mark huns => ?_⟩,
    fun hopen _ => ?_⟩
  · rw [hstage, hlog]
    exact h.requested writer
  · rw [hstage, hlog]
    exact h.answered writer
  · rw [hstage, hcls]
    exact h.refused writer
  · rw [hlog]
    exact h.authorized
  · rw [hcls, hblk, hstall]
    exact h.stalls
  · rw [hlog] at huns
    exact holds_of_eq (h.held (hcls.symm.trans hopen) mark huns) hacc hvs
  · rcases schedule_flushTimer (hcls.symm.trans hopen) with htimer | hblock
    · exact .inl htimer
    · exact .inr (.inr (hblk.trans hblock))

/-- A stream with something pending is scheduled, another one is left. -/
lemma Steady.scheduleIfPending (h : Steady stream) :
    Sound (if stream.hasPending then stream.schedule else stream) := by
  split
  · exact h.schedule
  · rename_i hnone
    exact ⟨h, fun _ hpend => absurd hpend hnone⟩

/-- Nothing is lost unless the set overflows. -/
lemma addVaults_spec (maxVaultIds : Nat) (vaults vaultIds : List String) :
    (Stream.addVaults maxVaultIds vaults vaultIds).1 ∨ ∀ vaultId, vaultId ∈ vaults ∨ vaultId ∈ vaultIds →
        vaultId ∈ (Stream.addVaults maxVaultIds vaults vaultIds).2 := by
  induction vaultIds generalizing vaults with
  | nil => exact .inr fun vaultId hmem => hmem.resolve_right (not_mem_nil)
  | cons vaultId vaultIds ih =>
    unfold Stream.addVaults
    have hadded : ∀ other, other ∈ vaults ∨ other = vaultId →
        other ∈ (if vaultId ∈ vaults then vaults else vaults ++ [vaultId]) := by
      intro other hmem
      split
      · rename_i hold
        rcases hmem with hmem | rfl
        · exact hmem
        · exact hold
      · exact mem_append.mpr (hmem.imp id mem_singleton.mpr)
    generalize (if vaultId ∈ vaults then vaults else vaults ++ [vaultId]) = vaults' at hadded ⊢
    dsimp only
    split
    · exact .inl rfl
    refine (ih vaults').imp id fun h other hmem => h other ?_
    rcases hmem with hmem | hmem
    · exact .inl (hadded other (.inl hmem))
    rcases mem_cons.mp hmem with rfl | hmem
    · exact .inl (hadded other (.inr rfl))
    · exact .inr hmem

lemma unsent_marks {log : List Entry} {mark : Mark}
    (h : Unsent mark ((new.map Entry.marked).reverse ++ log)) : mark ∈ new ∨ Unsent mark log := by
  rw [← map_reverse] at h
  have hnew : ∀ marks : List Mark, Unsent mark (marks.map .marked ++ log) →
      mark ∈ marks ∨ Unsent mark log := by
    intro marks
    induction marks with
    | nil => exact .inr
    | cons first marks ih =>
      intro huns
      rcases unsent_cons huns with heq | ⟨huns, -⟩
      · obtain rfl := Entry.marked.inj heq
        exact .inl mem_cons_self
      · exact (ih huns).imp (mem_cons_of_mem first) id
  exact (hnew new.reverse h).imp mem_reverse.mp id

lemma not_wrote_marks (new : List Mark) (frame : Frame) : .wrote frame ∉ (new.map Entry.marked).reverse := by
  intro hmem
  obtain ⟨mark, -, heq⟩ := mem_map.mp (mem_reverse.mp hmem)
  cases heq

/-- A change of the pending set that keeps what is held. -/
lemma Steady.hold (h : Steady stream) {account : Bool} (hholds : ∀ mark, mark ∈ new ∨ stream.Holds mark →
      Stream.Holds { stream with account, vaults } mark) :
    Steady { stream with account, vaults, log := (new.map Entry.marked).reverse ++ stream.log } := by
  have hnone : ∀ writer frame, .wrote frame ∈ (new.map Entry.marked).reverse →
      frame.writer ≠ some writer := fun writer frame hmem => absurd hmem (not_wrote_marks new frame)
  have hstage : ∀ writer, Stream.stage { stream with
      account
      vaults
      log := (new.map Entry.marked).reverse ++ stream.log } writer = stream.stage writer :=
    fun writer => by cases writer <;> rfl
  refine ⟨⟨fun writer hwrit => ?_, fun writer allowed hwrit => ?_, fun writer hwrit => ?_,
    h.authorized.append (not_wrote_marks new)⟩, h.stalls, fun hopen mark huns => ?_⟩
  · exact (h.requested writer hwrit).append (hnone writer)
  · exact (h.answered writer allowed hwrit).append (hnone writer)
  · exact h.refused writer hwrit
  · exact holds_of_eq (hholds mark ((unsent_marks huns).imp id (h.held hopen mark))) rfl rfl

lemma Sound.mark (h : Sound stream) (account : Bool) (vaultIds : List String) :
    Sound (stream.mark maxVaultIds account vaultIds) := by
  unfold Stream.mark
  split
  · exact h
  refine Steady.scheduleIfPending ?_
  by_cases hall : (stream.account || account) = true
  · -- everything is refreshed
    simp only [hall, if_true]
    refine h.toSteady.hold fun mark _ => ?_
    cases mark with
    | account => rfl
    | vault vaultId => exact .inl rfl
  · rw [not_eq_true] at hall
    obtain ⟨hstr, hacc⟩ := Bool.or_eq_false_iff.mp hall
    have hvs := addVaults_spec maxVaultIds stream.vaults vaultIds
    simp only [hall, Bool.false_eq_true, if_false]
    generalize Stream.addVaults maxVaultIds stream.vaults vaultIds = added at hvs ⊢
    split
    · rename_i hover
      refine h.toSteady.hold fun mark _ => ?_
      cases mark with
      | account => exact hover
      | vault vaultId => exact .inl hover
    · rename_i hfits
      have hkept := hvs.resolve_left hfits
      refine h.toSteady.hold fun mark hmark => ?_
      cases mark with
      | account =>
        rcases hmark with hmark | hmark
        · rw [Stream.marks, hacc, if_neg Bool.false_ne_true, nil_append] at hmark
          obtain ⟨vaultId, -, heq⟩ := mem_map.mp hmark
          cases heq
        · exact nomatch hmark.symm.trans hstr
      | vault vaultId =>
        rcases hmark with hmark | hmark
        · rw [Stream.marks, hacc, if_neg Bool.false_ne_true, nil_append] at hmark
          obtain ⟨other, hmem, heq⟩ := mem_map.mp hmark
          obtain rfl := Mark.vault.inj heq
          exact .inr (hkept other (.inr hmem))
        · rcases hmark with hmark | hmark
          · exact nomatch hmark.symm.trans hstr
          · exact .inr (hkept vaultId (.inl hmark))

lemma stage_withStage (stream : Stream) (stage : Stage) (writer other : Writer) :
    (stream.withStage stage writer).stage other = if other = writer then stage else stream.stage other := by
  cases writer <;> cases other <;> rfl

/-- A writer that is over needs no authorization any more. -/
lemma Logged.idle (h : Logged stream) (writer : Writer) : Logged (stream.withStage .idle writer) := by
  have hstage := stage_withStage stream .idle writer
  have hlog : (stream.withStage .idle writer).log = stream.log := by
    cases writer <;> rfl
  have hcls : (stream.withStage .idle writer).closed = stream.closed := by
    cases writer <;> rfl
  refine ⟨fun other hother => ?_, fun other allowed hother => ?_, fun other hother => ?_, ?_⟩
  · rw [hstage] at hother
    split at hother
    · cases hother
    · exact hlog ▸ h.requested other hother
  · rw [hstage] at hother
    split at hother
    · cases hother
    · exact hlog ▸ h.answered other allowed hother
  · rw [hstage] at hother
    split at hother
    · cases hother
    · exact hcls ▸ h.refused other hother
  · rw [hlog]
    exact h.authorized

lemma Steady.idle (h : Steady stream) (writer : Writer) : Steady (stream.withStage .idle writer) := by
  have hlogg := h.toLogged.idle writer
  cases writer with
  | flush | heartbeat => exact ⟨hlogg, h.stalls, h.held⟩

/-- A frame was written, and nothing else but the blocking of the stream changed. -/
structure Writes (stream written : Stream) (frame : Frame) : Prop where
  log : written.log = .wrote frame :: stream.log
  stage : ∀ writer, written.stage writer = stream.stage writer
  account : written.account = stream.account
  vaults : written.vaults = stream.vaults
  opened : written.closed = false
  stalls : written.blocked = true → written.stallTimer = true
  timer : written.flushTimer = stream.flushTimer ∨ written.blocked = true

/-- A stream is closed, or a frame is written to it. -/
lemma write_cases (stream : Stream) (frame : Frame) (outcome : Outcome) (hopen : stream.closed = false)
    (hblk : stream.blocked = false) : stream.write frame outcome = stream.closeStream ∨
      Writes stream (stream.write frame outcome) frame := by
  unfold Stream.write
  rw [hopen, if_neg Bool.false_ne_true]
  cases outcome with
  | gone => exact .inl rfl
  | accepted =>
    refine .inr ⟨rfl, fun writer => by cases writer <;> rfl, rfl, rfl, rfl, fun hblock => ?_, .inl rfl⟩
    exact nomatch hblock.symm.trans hblk
  | blocking =>
    dsimp only
    split
    · exact .inr ⟨rfl, fun writer => by cases writer <;> rfl, rfl, rfl, rfl, fun _ => rfl, .inr rfl⟩
    rename_i hstal
    rw [not_eq_true', Bool.not_eq_false] at hstal
    exact .inr ⟨rfl, fun writer => by cases writer <;> rfl, rfl, rfl, rfl, fun _ => hstal, .inr rfl⟩

/-- A writer wrote a frame that it was authorized to write. -/
lemma Logged.wrote (h : Logged stream) {written : Stream} {frame : Frame}
    (hwrs : Writes stream written frame) (hopen : stream.closed = false) (hframe : frame.writer = some writer)
    (hauth : Authorized writer stream.log) : Logged (written.withStage .idle writer) := by
  have hstage := stage_withStage written .idle writer
  have hlog : (written.withStage .idle writer).log = .wrote frame :: stream.log := by
    rw [← hwrs.log]
    cases writer <;> rfl
  have hnew : ∀ other, other ≠ writer → ∀ frame', .wrote frame' ∈ [Entry.wrote frame] →
      frame'.writer ≠ some other := fun other hne frame' hmem heq => by
    obtain rfl := Entry.wrote.inj (mem_singleton.mp hmem)
    exact hne (Option.some.inj (heq.symm.trans hframe))
  refine ⟨fun other hother => ?_, fun other allowed hother => ?_, fun other hother => ?_, ?_⟩
  · rw [hstage] at hother
    split at hother
    · cases hother
    rename_i hne
    rw [hwrs.stage] at hother
    rw [hlog]
    exact (h.requested other hother).append (hnew other hne)
  · rw [hstage] at hother
    split at hother
    · cases hother
    rename_i hne
    rw [hwrs.stage] at hother
    rw [hlog]
    exact (h.answered other allowed hother).append (hnew other hne)
  · rw [hstage] at hother
    split at hother
    · cases hother
    · rw [hwrs.stage] at hother
      exact nomatch (h.refused other hother).symm.trans hopen
  · rw [hlog]
    exact h.authorized.wrote (.inr ⟨writer, hframe, hauth⟩)

/-- A heartbeat contains no mark. -/
lemma Sound.heartbeatResumes (h : Sound stream)
    (hstage : stream.heartbeat = .answered allowed) (outcome : Outcome) :
    Sound (stream.heartbeatResumes allowed outcome) := by
  have hidle : Sound { stream with heartbeat := .idle } := ⟨h.toSteady.idle .heartbeat, h.pending⟩
  unfold Stream.heartbeatResumes
  split
  · exact hidle
  rename_i hgo
  rw [or_eq_true, or_eq_true, not_or, not_or, not_eq_true, not_eq_true] at hgo
  rcases write_cases stream .keepAlive outcome hgo.1.2 (by simpa using hgo.2) with heq | hwrs
  · rw [heq]
    exact ⟨h.closeStream.toSteady.idle .heartbeat, h.closeStream.pending⟩
  have hlogg := h.toLogged.wrote hwrs hgo.1.2 rfl (h.answered .heartbeat allowed hstage)
  refine ⟨⟨hlogg, fun _ => hwrs.stalls, fun _ mark huns => ?_⟩, fun _ hpend => ?_⟩
  · rw [hwrs.log] at huns
    have hholds : stream.Holds mark := by
      rcases unsent_cons huns with heq | ⟨huns, -⟩
      · cases heq
      · exact h.held hgo.1.2 mark huns
    exact holds_of_eq hholds hwrs.account hwrs.vaults
  · have hpend' : stream.hasPending = true := by
      have hsame : (stream.write .keepAlive outcome).hasPending = stream.hasPending := by
        rw [Stream.hasPending, hwrs.account, hwrs.vaults]
        rfl
      exact hsame.symm.trans hpend
    rcases hwrs.timer with htimer | hblock
    · rcases h.pending hgo.1.2 hpend' with hold | hold | hold
      · exact .inl (htimer.trans hold)
      · exact .inr (.inl fun hnone => hold ((hwrs.stage .flush).symm.trans hnone))
      · rw [not_eq_true] at hgo
        exact nomatch hold.symm.trans hgo.2
    · exact .inr (.inr hblock)

lemma mem_sorted {vaultId : String} : vaultId ∈ vaults.mergeSort Stream.vaultIdLe ↔ vaultId ∈ vaults :=
  mem_mergeSort

/-- A flush writes everything that is pending, or leaves it where the stream is blocked. -/
lemma Sound.flushResumes (h : Sound stream) (hstage : stream.flush = .answered allowed) (outcome : Outcome) :
    Sound (stream.flushResumes allowed outcome) := by
  unfold Stream.flushResumes
  split
  · rename_i hstop
    refine ⟨h.toSteady.idle .flush, fun hopen _ => .inr (.inr ?_)⟩
    cases allowed with
    | true =>
      rw [hopen, Bool.not_true, Bool.false_or, Bool.false_or] at hstop
      exact hstop
    | false => exact nomatch (h.refused .flush hstage).symm.trans hopen
  · rename_i hgo
    rw [or_eq_true, or_eq_true, not_or, not_or, not_eq_true, not_eq_true, not_eq_true] at hgo
    dsimp only
    -- the frame has every vault that is pending, unless it has the account
    have hids : ∀ vaultId ∈ stream.vaults, stream.account = true ∨
        vaultId ∈ (if stream.account = true then [] else stream.vaults.mergeSort Stream.vaultIdLe) :=
      fun vaultId hmem => by
        split
        · rename_i hacc
          exact .inl hacc
        · exact .inr (mem_sorted.mpr hmem)
    generalize (if stream.account = true then [] else stream.vaults.mergeSort Stream.vaultIdLe) = vaultIds at hids ⊢
    have hcont : ∀ mark, Unsent mark stream.log →
        (Frame.invalidate stream.account vaultIds).contains mark = true := fun mark huns => by
      have hholds := h.held hgo.1.2 mark huns
      simp only [Frame.contains, or_eq_true]
      cases mark with
      | account => exact .inl hholds
      | vault vaultId =>
        rcases hholds with hholds | hholds
        · exact .inl hholds
        · refine (hids vaultId hholds).imp id fun hmem => ?_
          exact contains_iff_mem.mpr hmem
    have hcle : Logged { stream with account := false, vaults := [] } :=
      { h with }
    split
    · -- nothing is pending
      rename_i hempty
      rw [and_eq_true, not_eq_true', List.isEmpty_iff] at hempty
      refine ⟨⟨hcle.idle .flush, h.stalls, fun hopen mark huns => ?_⟩, fun _ hpend => ?_⟩
      · have hmark := hcont mark huns
        rw [hempty.1, hempty.2] at hmark
        cases mark with
        | account | vault => cases hmark
      · cases hpend
    · have hsplit := write_cases { stream with account := false, vaults := [] }
        (.invalidate stream.account vaultIds) outcome hgo.1.2 hgo.2
      generalize hwr : Stream.write (.invalidate stream.account vaultIds) outcome
        { stream with account := false, vaults := [] } = written at hsplit ⊢
      have hsound : Steady { written with flush := .idle } := by
        rcases hsplit with heq | hwrs
        · rw [heq]
          have hcls : Logged (Stream.closeStream { stream with account := false, vaults := [] }) := by
            unfold Stream.closeStream
            split
            · exact hcle
            · exact { h with refused := fun _ _ => rfl }
          have hshut : (Stream.closeStream { stream with account := false, vaults := [] }).closed = true := by
            unfold Stream.closeStream
            split
            · rename_i hopen
              exact hopen
            · rfl
          exact ⟨hcls.idle .flush, fun hopen => (nomatch hshut.symm.trans hopen),
            fun hopen => (nomatch hshut.symm.trans hopen)⟩
        · have hauth : Authorized .flush stream.log := h.answered .flush allowed hstage
          refine ⟨hcle.wrote hwrs hgo.1.2 rfl hauth, fun _ => hwrs.stalls, fun _ mark huns => ?_⟩
          rw [hwrs.log] at huns
          rcases unsent_cons huns with heq | ⟨huns, hnot⟩
          · cases heq
          · exact nomatch (hnot _ rfl).symm.trans (hcont mark huns)
      split
      · exact hsound.schedule
      rename_i hnone
      refine ⟨hsound, fun hopen hpend => absurd ?_ hnone⟩
      rw [and_eq_true, not_eq_true']
      exact ⟨hopen, hpend⟩

/-- A writer that was idle asks for an authorization. -/
lemma Steady.request (h : Steady stream) (writer : Writer) : Steady (stream.request writer) := by
  have hstage : ∀ other, (stream.request writer).stage other
      = if other = writer then .authorizing else stream.stage other := by
    intro other
    cases writer <;> cases other <;> rfl
  have hlog : (stream.request writer).log = [.requested writer] ++ stream.log := by
    cases writer <;> rfl
  have hnew : ∀ other, ∀ frame, .wrote frame ∈ [Entry.requested writer] →
      frame.writer ≠ some other := fun other frame hmem => by
    cases mem_singleton.mp hmem
  have hlogg : Logged (stream.request writer) := by
    refine ⟨fun other hother => ?_, fun other allowed hother => ?_, fun other hother => ?_, ?_⟩
    · rw [hstage] at hother
      split at hother
      · rename_i hsame
        subst hsame
        exact ⟨[], stream.log, rfl, fun _ hmem => (by cases hmem)⟩
      · exact (h.requested other hother).append (hnew other)
    · rw [hstage] at hother
      split at hother
      · cases hother
      · exact (h.answered other allowed hother).append (hnew other)
    · rw [hstage] at hother
      split at hother
      · cases hother
      have hcls := h.refused other hother
      cases writer with
      | flush | heartbeat => exact hcls
    · rw [hlog]
      exact h.authorized.append fun frame hmem => by
        cases mem_singleton.mp hmem
  have hheld : ∀ mark, stream.closed = false → Unsent mark (stream.request writer).log →
      stream.Holds mark := fun mark hopen huns => by
    rcases unsent_cons huns with heq | ⟨huns, -⟩
    · cases heq
    · exact h.held hopen mark huns
  cases writer with
  | flush | heartbeat => exact ⟨hlogg, h.stalls, fun hopen mark huns =>
      holds_of_eq (hheld mark hopen huns) rfl rfl⟩

lemma Sound.flushFires (h : Sound stream) : Sound stream.flushFires := by
  unfold Stream.flushFires
  dsimp only
  have hste : Steady { stream with flushTimer := false } :=
    ⟨{ h with }, h.stalls, fun hopen mark huns =>
      holds_of_eq (h.held hopen mark huns) rfl rfl⟩
  split
  · rename_i hstop
    refine ⟨hste, fun hopen _ => ?_⟩
    rw [show stream.closed = false from hopen, Bool.false_or, or_eq_true, decide_eq_true_eq] at hstop
    rcases hstop with hblk | hflush
    · exact .inr (.inr hblk)
    · exact .inr (.inl hflush)
  · split
    · rename_i hnone
      refine ⟨hste, fun _ hpend => ?_⟩
      rw [hpend] at hnone
      cases hnone
    · exact ⟨hste.request .flush, fun _ _ => .inr (.inl Stage.noConfusion)⟩

lemma Sound.heartbeatFires (h : Sound stream) : Sound stream.heartbeatFires := by
  unfold Stream.heartbeatFires
  split
  · exact h
  · exact ⟨h.toSteady.request .heartbeat, h.pending⟩

/-- A writer that asked is answered. A stream that is open was authorized. -/
lemma Steady.afterAnswer (h : Steady stream) (allowed : Bool) (hreq : Requested writer stream.log)
    (href : allowed = false → stream.closed) :
    Steady { stream.withStage (.answered allowed) writer with log := .answered writer :: stream.log } := by
  have hstage : ∀ other, Stream.stage { stream.withStage (.answered allowed) writer with
      log := .answered writer :: stream.log } other
        = if other = writer then .answered allowed else stream.stage other := by
    intro other
    cases writer <;> cases other <;> rfl
  have hnew : ∀ other, ∀ frame, .wrote frame ∈ [Entry.answered writer] → frame.writer ≠ some other :=
    fun other frame hmem => by cases mem_singleton.mp hmem
  have hcls : (stream.withStage (.answered allowed) writer).closed = stream.closed := by
    cases writer <;> rfl
  refine ⟨⟨fun other hother => ?_, fun other allowed' hother => ?_, fun other hother => ?_, ?_⟩, ?_,
    fun hopen mark huns => ?_⟩
  · rw [hstage] at hother
    split at hother
    · cases hother
    · exact (h.requested other hother).append (hnew other)
  · rw [hstage] at hother
    split at hother
    · rename_i hsame
      subst hsame
      exact ⟨[], stream.log, rfl, fun _ hmem => (by cases hmem), hreq⟩
    · exact (h.answered other allowed' hother).append (hnew other)
  · rw [hstage] at hother
    refine hcls.trans ?_
    split at hother
    · exact href (Stage.answered.inj hother)
    · exact h.refused other hother
  · have hnone : ∀ frame, .wrote frame ∉ [Entry.answered writer] := fun frame hmem => by
      cases mem_singleton.mp hmem
    exact h.authorized.append hnone
  · cases writer with
    | flush | heartbeat => exact h.stalls
  · have hholds : stream.Holds mark := by
      rcases unsent_cons huns with heq | ⟨huns, -⟩
      · cases heq
      · exact h.held (hcls.symm.trans hopen) mark huns
    cases writer with
    | flush | heartbeat => exact holds_of_eq hholds rfl rfl

lemma closeStream_log (stream : Stream) : stream.closeStream.log = stream.log := by
  unfold Stream.closeStream
  split
  · rfl
  · rfl

lemma closeStream_closed (stream : Stream) : stream.closeStream.closed := by
  unfold Stream.closeStream
  split
  · rename_i hcls
    exact hcls
  · rfl

lemma Sound.answer (h : Sound stream) (hstage : stream.stage writer = .authorizing) (authorized : Bool) :
    Sound (stream.answer writer authorized) := by
  have hreq := h.requested writer hstage
  unfold Stream.answer
  split
  · have hste := h.toSteady.afterAnswer (!stream.closed) hreq fun href => by
      rw [Bool.not_eq_false'] at href
      exact href
    refine ⟨hste, fun hopen hpend => ?_⟩
    cases writer with
    | flush => exact .inr (.inl Stage.noConfusion)
    | heartbeat => exact h.pending hopen hpend
  · have hlog := closeStream_log stream
    have hste := h.closeStream.toSteady.afterAnswer false (hlog.symm ▸ hreq : Requested writer _)
      fun _ => closeStream_closed stream
    rw [hlog] at hste
    refine ⟨hste, fun hopen => ?_⟩
    have hcls := closeStream_closed stream
    cases writer with
    | flush | heartbeat => exact nomatch hcls.symm.trans hopen

lemma Sound.answerCheck (h : Sound stream) (authorized : Bool) : Sound (stream.answerCheck authorized) := by
  have hchk : Sound { stream with checks := stream.checks - 1 } :=
    ⟨⟨{ h with }, h.stalls, fun hopen mark huns =>
      holds_of_eq (h.held hopen mark huns) rfl rfl⟩, h.pending⟩
  unfold Stream.answerCheck
  split
  · exact hchk
  · exact hchk.closeStream

lemma Sound.drained (h : Sound stream) : Sound stream.drained := by
  unfold Stream.drained
  dsimp only
  split
  · rename_i hcls
    exact ⟨⟨{ h with }, fun hopen => (nomatch hcls.symm.trans hopen),
      fun hopen => (nomatch hcls.symm.trans hopen)⟩, fun hopen => (nomatch hcls.symm.trans hopen)⟩
  refine Steady.scheduleIfPending ⟨{ h with }, fun _ hblk => (by cases hblk), fun hopen mark huns => ?_⟩
  exact holds_of_eq (h.held hopen mark huns) rfl rfl

end Streams

section Runs
variable {Db : Type} {options : Options}
  {computeDashboardImpact : Db → Db → List String → Option DashboardImpact} {hub hub' : Hub Db}
  {stream : Stream} {f : Stream → Stream} {mark : Mark}

/-- Every stream of the hub is in order. -/
def AllSound (hub : Hub Db) : Prop := ∀ stream ∈ hub.streams, Sound stream

lemma AllSound.mapOpen (h : AllSound hub)
    (hf : ∀ stream, Sound stream → Sound (f stream)) : AllSound (hub.mapOpen f) := by
  intro stream hmem
  obtain ⟨old, hold, rfl⟩ := mem_map.mp hmem
  split
  · exact h old hold
  · exact hf old (h old hold)

/-- A step of one stream. -/
lemma AllSound.onStream (h : AllSound hub) {streamId : Nat} {enabled : Stream → Bool}
    (hf : ∀ stream, enabled stream → Sound stream → Sound (f stream))
    (hstep : hub.onStream streamId enabled f = some hub') : AllSound hub' := by
  obtain ⟨-, ⟨⟩⟩ := Option.ite_none_right_eq_some.mp hstep
  intro stream hmem
  obtain ⟨old, hold, rfl⟩ := mem_map.mp hmem
  split
  · rename_i henab
    exact hf old henab.2 (h old hold)
  · exact h old hold

lemma Sound.check (h : Sound stream) : Sound { stream with checks := stream.checks + 1 } :=
  ⟨⟨{ h with }, h.stalls, fun hopen mark huns =>
    holds_of_eq (h.held hopen mark huns) rfl rfl⟩, h.pending⟩

lemma Sound.applyImpact (h : Sound stream) (impact : DashboardImpact) :
    Sound (Hub.applyImpact options impact stream) := by
  have hmark : Sound (match impact.owners.find? fun owner => owner.1 = stream.userId with
      | some (_, owner) => stream.mark options.maxVaultIdsPerMessage owner.account owner.vaults
      | none => stream) := by
    split
    · exact h.mark _ _
    · exact h
  unfold Hub.applyImpact
  dsimp only
  split
  · exact hmark.check
  · exact hmark

lemma AllSound.onCommit (h : AllSound hub) (previous current : Db) :
    AllSound (hub.onCommit options computeDashboardImpact previous current) := by
  unfold Hub.onCommit
  split
  · rename_i impact hcomp
    exact h.mapOpen fun stream hsound => hsound.applyImpact impact
  · exact h.mapOpen fun stream hsound => (hsound.mark true []).check

/-- The initial frame is written to a stream that awaits nothing. -/
lemma sound_attach (streamId : Nat) (userId sessionId : String) (outcome : Outcome) :
    Sound (Stream.write .refresh outcome { streamId, userId, sessionId }) := by
  have hstag : ∀ writer, Stream.stage { streamId, userId, sessionId } writer = .idle :=
    fun writer => by cases writer <;> rfl
  have hstart : Sound { streamId, userId, sessionId } := by
    refine ⟨⟨⟨fun writer hstage => ?_, fun writer allowed hstage => ?_, fun writer hstage => ?_,
      fun later frame earlier heq => ?_⟩, fun _ hblk => (by cases hblk),
      fun _ mark huns => ?_⟩, fun _ hpend => (by cases hpend)⟩
    · exact nomatch (hstag writer).symm.trans hstage
    · exact nomatch (hstag writer).symm.trans hstage
    · exact nomatch (hstag writer).symm.trans hstage
    · exact nomatch (append_eq_nil_iff.mp heq.symm).2
    · obtain ⟨later, earlier, heq, -⟩ := huns
      exact nomatch (append_eq_nil_iff.mp heq.symm).2
  rcases write_cases { streamId, userId, sessionId } .refresh outcome rfl rfl with heq | hwrs
  · rw [heq]
    exact hstart.closeStream
  generalize Stream.write .refresh outcome { streamId, userId, sessionId } = written at hwrs ⊢
  have hwr : ∀ writer, written.stage writer = .idle := fun writer =>
    (hwrs.stage writer).trans (hstag writer)
  refine ⟨⟨⟨fun writer hstage => ?_, fun writer allowed hstage => ?_, fun writer hstage => ?_, ?_⟩,
    fun _ => hwrs.stalls, fun _ mark huns => ?_⟩, fun _ hpend => ?_⟩
  · exact nomatch (hwr writer).symm.trans hstage
  · exact nomatch (hwr writer).symm.trans hstage
  · exact nomatch (hwr writer).symm.trans hstage
  · rw [hwrs.log]
    exact hstart.authorized.wrote (.inl rfl)
  · rw [hwrs.log] at huns
    rcases unsent_cons huns with heq | ⟨huns, -⟩
    · cases heq
    · exact holds_of_eq (hstart.held rfl mark huns) hwrs.account hwrs.vaults
  · rw [Stream.hasPending, hwrs.account, hwrs.vaults] at hpend
    cases hpend

lemma AllSound.step (h : AllSound hub) {label : Label Db}
    (hstep : hub.step options computeDashboardImpact label = some hub') : AllSound hub' := by
  cases label with
  | admitStream streamId userId sessionId sameOrigin outcome =>
    obtain ⟨-, ⟨⟩⟩ := Option.ite_none_right_eq_some.mp hstep
    exact InsertionOrder.forall_mem_concat.mpr ⟨h, sound_attach streamId userId sessionId outcome⟩
  | commit previous current =>
    cases hstep
    unfold Hub.publishCommit
    split
    · exact h
    split
    · exact h
    · exact h
  | drainCommits =>
    obtain ⟨⟨previous, current⟩, -, rfl⟩ := Option.map_eq_some_iff.mp hstep
    have hdrn : AllSound ({ hub with pendingCommit := none } : Hub Db) := h
    exact hdrn.onCommit previous current
  | broadcastAccountInvalidation =>
    cases hstep
    unfold Hub.broadcast
    split
    · exact h
    · exact h.mapOpen fun stream hsound => hsound.mark true []
  | closeHub =>
    cases hstep
    exact h.mapOpen fun stream => Sound.closeStream
  | flushTimer streamId => exact h.onStream (fun stream _ => Sound.flushFires) hstep
  | heartbeatTimer streamId => exact h.onStream (fun stream _ => Sound.heartbeatFires) hstep
  | stallTimer | sinkClose => exact h.onStream (fun stream _ => Sound.closeStream) hstep
  | answer streamId writer authorized =>
    exact h.onStream (fun stream hstage hsound => hsound.answer (of_decide_eq_true hstage) authorized)
      hstep
  | answerCheck streamId authorized =>
    exact h.onStream (fun stream _ hsound => hsound.answerCheck authorized) hstep
  | resume streamId writer outcome =>
    refine h.onStream (fun stream _ hsound => ?_) hstep
    cases hstage : stream.stage writer with
    | idle | authorizing => cases writer <;> exact hsound
    | answered allowed =>
      cases writer with
      | flush => exact hsound.flushResumes hstage outcome
      | heartbeat => exact hsound.heartbeatResumes hstage outcome
  | drain streamId => exact h.onStream (fun stream _ => Sound.drained) hstep

lemma AllSound.run {labels : List (Label Db)} (h : AllSound hub)
    (hrun : hub.run options computeDashboardImpact labels = some hub') : AllSound hub' :=
  LabelledRuns.inv_run hrun (fun _ => rfl) (fun _ _ _ => rfl) (·.step ·) h

/-- The hub starts without a stream. -/
lemma allSound_start : AllSound ({} : Hub Db) := fun stream hmem => (by cases hmem)

lemma Sound.coming (h : Sound stream) (hopen : stream.closed = false)
    (hpend : stream.hasPending) : stream.Coming := by
  rcases h.pending hopen hpend with htimer | hflush | hblk
  · exact .inl htimer
  · cases hstage : stream.flush with
    | idle => exact absurd hstage hflush
    | authorizing => exact .inr (.inl hstage)
    | answered allowed =>
      cases allowed with
      | true => exact .inr (.inr (.inl hstage))
      | false => exact nomatch (h.refused .flush hstage).symm.trans hopen
  · exact .inr (.inr (.inr ⟨hblk, h.stalls hopen hblk⟩))

lemma Stream.Holds.hasPending (h : stream.Holds mark) : stream.hasPending := by
  rw [Stream.hasPending, or_eq_true]
  cases mark with
  | account => exact .inl h
  | vault vaultId =>
    refine h.imp id fun hmem => ?_
    rw [not_eq_true', isEmpty_eq_false_iff]
    exact ne_nil_of_mem hmem

/-- A flush that is not stopped leaves nothing pending. -/
lemma flushResumes_hasPending (hopen : stream.closed = false) (hblk : stream.blocked = false) (outcome : Outcome) :
    (stream.flushResumes true outcome).hasPending = false := by
  have hgo : ¬ (!true || stream.closed || stream.blocked) = true := by
    rw [hopen, hblk]
    exact Bool.false_ne_true
  unfold Stream.flushResumes
  rw [if_neg hgo]
  dsimp only
  generalize (if stream.account = true then [] else stream.vaults.mergeSort Stream.vaultIdLe) = vaultIds
  split
  · rfl
  have hwr : (Stream.write (.invalidate stream.account vaultIds) outcome
      { stream with account := false, vaults := [] }).hasPending = false := by
    rcases write_cases { stream with account := false, vaults := [] }
      (.invalidate stream.account vaultIds) outcome hopen hblk with heq | hwrs
    · rw [heq, Stream.closeStream, hopen, if_neg Bool.false_ne_true]
      rfl
    · rw [Stream.hasPending, hwrs.account, hwrs.vaults]
      rfl
  generalize Stream.write (.invalidate stream.account vaultIds) outcome
    { stream with account := false, vaults := [] } = written at hwr ⊢
  split
  · rename_i hpend
    rw [and_eq_true] at hpend
    exact nomatch hwr.symm.trans (hpend.2 : written.hasPending = true)
  · exact hwr

/-- A mark is in a later frame, or no frame has contained it since. -/
lemma contained_or_unsent {later earlier : List Entry} : (∃ frame, .wrote frame ∈ later ∧ frame.contains mark) ∨
      Unsent mark (later ++ .marked mark :: earlier) := by
  by_cases hsent : ∃ frame, .wrote frame ∈ later ∧ frame.contains mark = true
  · exact .inl hsent
  · refine .inr ⟨later, earlier, rfl, fun frame hmem => ?_⟩
    exact Bool.eq_false_iff.mpr fun hcont => hsent ⟨frame, hmem, hcont⟩

/-- On every stream of a hub that runs, what is pending will be flushed; what was marked is in a
later frame, unless the stream closed or still holds it for the flush to come; a flush that is not
stopped sends everything that was marked; and every frame after the first was authorized on its
own. -/
theorem streams_lose_nothing {labels : List (Label Db)}
    (hrun : Hub.run options computeDashboardImpact {} labels = some hub) : ∀ stream ∈ hub.streams,
      (stream.closed = false → stream.hasPending = true → stream.Coming) ∧
      (∀ mark later earlier, stream.log = later ++ .marked mark :: earlier →
        (∃ frame, .wrote frame ∈ later ∧ frame.contains mark = true) ∨ stream.closed = true ∨
          stream.Holds mark ∧ stream.Coming) ∧ (∀ outcome, stream.flush = .answered true → stream.blocked = false →
        (stream.flushResumes true outcome).closed = true ∨ ∀ mark later earlier,
            (stream.flushResumes true outcome).log = later ++ .marked mark :: earlier →
              ∃ frame, .wrote frame ∈ later ∧ frame.contains mark = true) ∧ AuthorizedFrames stream.log := by
  intro stream hmem
  have hsound : Sound stream := allSound_start.run hrun stream hmem
  refine ⟨hsound.coming, fun mark later earlier hlog => ?_, fun outcome hstage hblk => ?_, hsound.authorized⟩
  · rcases contained_or_unsent with hsent | huns
    · exact .inl hsent
    refine .inr (Bool.eq_false_or_eq_true stream.closed |>.imp id fun hopen => ?_)
    have hholds := hsound.held hopen mark (hlog.symm ▸ huns)
    exact ⟨hholds, hsound.coming hopen hholds.hasPending⟩
  · refine (Bool.eq_false_or_eq_true (stream.flushResumes true outcome).closed).imp id
      fun hopen mark later earlier hlog => ?_
    rcases contained_or_unsent with hsent | huns
    · exact hsent
    have hflus := hsound.flushResumes hstage outcome
    have hholds := hflus.held hopen mark (hlog.symm ▸ huns)
    have hstr : stream.closed = false := by
      refine Bool.eq_false_iff.mpr fun hcls => ?_
      rw [Stream.flushResumes, hcls, Bool.or_true, Bool.true_or, if_pos rfl] at hopen
      cases hopen
    exact nomatch (flushResumes_hasPending hstr hblk outcome).symm.trans hholds.hasPending

/-- A stream is marked; its flush and its heartbeat ask for their authorizations, are both answered,
and write. -/
def flushBesideHeartbeat : List (Label Nat) :=
  [.admitStream 0 "owner" "session" true .accepted, .commit 0 1, .drainCommits, .flushTimer 0,
    .heartbeatTimer 0, .answer 0 .flush true, .answer 0 .heartbeat true, .resume 0 .flush .accepted,
    .resume 0 .heartbeat .accepted]

def sampleImpact (_ _ : Nat) (_ : List String) : Option DashboardImpact :=
  some { owners := [("owner", ⟨true, []⟩)], sessions := [], users := [] }

def sampleStream : Stream where
  streamId := 0
  userId := "owner"
  sessionId := "session"
  log := [.wrote .keepAlive, .wrote (.invalidate true []), .answered .heartbeat,
    .answered .flush, .requested .heartbeat, .requested .flush, .marked .account,
    .wrote .refresh]

lemma flushBesideHeartbeat_run :
    Hub.run {} sampleImpact {} flushBesideHeartbeat = some { streams := [sampleStream] } := by
  rfl

theorem streams_lose_nothing_beside : sampleStream ∈ ({ streams := [sampleStream] } : Hub Nat).streams ∧
      AuthorizedFrames sampleStream.log :=
  ⟨mem_singleton_self _, (streams_lose_nothing flushBesideHeartbeat_run sampleStream (mem_singleton_self _)).2.2.2⟩

/-- The heartbeat writes right after the flush, by the answer it had before. -/
theorem heartbeat_writes_by_an_earlier_answer :
    ¬ ∀ (labels : List (Label Nat)) (hub : Hub Nat), Hub.run {} sampleImpact {} labels = some hub →
      ∀ stream ∈ hub.streams, ∀ later frame between previous earlier,
        stream.log = later ++ .wrote frame :: (between ++ .wrote previous :: earlier) →
          ∃ writer, .answered writer ∈ between := by
  intro hansw
  obtain ⟨writer, hmem⟩ := hansw flushBesideHeartbeat _ flushBesideHeartbeat_run sampleStream
    (mem_singleton_self _) [] .keepAlive [] (.invalidate true []) _ rfl
  cases hmem

end Runs

end DashboardStreams
