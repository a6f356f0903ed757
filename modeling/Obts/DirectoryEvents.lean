import Obts.DirectoryOperations

/-!
# Directory changes and the event log

A device may reuse an older directory baseline when the events since then are contiguous
and carry no directory intents. This module runs arbitrary sequences of metadata mutations
and shows that such a gap never hides a change of the explicit directories. The ghost
`dirsAfter` records, for every event sequence number of a vault, the explicit directories in
the first committed state that has reached it.
-/
namespace DirectoryEvents

open SlashPath DirectoryIntents Metadata DirectoryProposals DirectoryResolution List MetadataDb
open DirectoryOperations InsertionOrder

inductive Operation where
  /-- Any mutation that writes neither events nor directories nor operation rows. -/
  | writeRows (vaults : List VaultRow) (devices : List DeviceRow)
      (conflicts : List ConflictRecord) (results : List DirectoryProposalResultRow)
  | startServerMerge (operationId vaultId deviceId main : String) (plan : Option DirectoryMergePlan)
  | startConflictResolve (operationId vaultId conflictId main actorUserId : String) (kind : ConflictResolutionKind)
  | startVaultSettings (operationId vaultId actorUserId previousMain targetMain : String) (removed : List Path)
  | startNameRepair (operationId vaultId actorUserId previousMain targetMain : String)
      (intents : List DirectoryIntent)
  | startOther (operationId vaultId : String) (deviceId : Option String)
      (operationType : OperationType) (main : Option String)
  | prepareRefUpdate (operationId commit : String)
  | setStatus (operationId : String) (status : OperationStatus)
  /-- Events without directory intents, appended in one mutation. -/
  | recordEvents (vaultId : String) (events : List (EventType × Stamp))
  | acceptDirectoryProposal (vaultId deviceId deviceCommit : String) (plan : DirectoryMergePlan) (stamp : Stamp)
  | commitMerge (operationId vaultId deviceId deviceCommit mergeCommit : String)
      (plan : Option DirectoryMergePlan) (stamp : Stamp)
  | commitResolution (operationId vaultId conflictId resolutionCommit : String)
      (kind : ConflictResolutionKind) (mainStamp : Stamp) (resolvedId : String)
  | commitVaultSettings (operationId : String) (stamp : Stamp)
  | commitNameRepair (operationId : String) (stamp : Stamp)
  | rollForward (operationId : String) (verified : Bool) (stamp : Stamp) (secondId : String)
  | eraseVault (vaultId : String)

variable (c : Collation)

/-- One mutation; an error is thrown before anything is written. -/
def Operation.apply (db : MetadataDb) : Operation → Except Failure MetadataDb
  | .writeRows vaults devices conflicts results =>
    .ok { db with vaults, devices, conflicts, directoryProposalResults := results }
  | .startServerMerge operationId vaultId deviceId main plan =>
    .ok (startRow db
      { operationId, vaultId
        deviceId := some deviceId
        operationType := .serverMerge
        expectedMain := some main
        targetMain := none
        targetCommit := none
        status := .prepared
        preparedManifest := { directoryPlan := plan } })
  | .startConflictResolve operationId vaultId conflictId main actorUserId kind => do
    let conflict ← requireConflict db vaultId conflictId
    return startRow db
      { operationId, vaultId
        deviceId := some conflict.deviceId
        operationType := .conflictResolve
        expectedMain := some main
        targetMain := none
        targetCommit := none
        status := .prepared
        preparedManifest :=
          { actorUserId := some actorUserId
            conflictId := some conflictId
            resolutionKind := some kind
            directoryProposal := conflict.directoryContext.map (·.proposal)
            resolvedDirectoryIntents :=
              resolvedConflictDirectoryIntents c conflict.directoryContext kind } }
  | .startVaultSettings operationId vaultId actorUserId previousMain targetMain removed =>
    .ok (startRow db
      { operationId, vaultId
        deviceId := none
        operationType := .vaultSettings
        expectedMain := some previousMain
        targetMain := some targetMain
        targetCommit := some targetMain
        status := .prepared
        preparedManifest :=
          { actorUserId := some actorUserId
            previousMain := some previousMain
            targetMain := some targetMain
            removedDirectories := some removed } })
  | .startNameRepair operationId vaultId actorUserId previousMain targetMain intents =>
    .ok (startRow db
      { operationId, vaultId
        deviceId := none
        operationType := .nameRepair
        expectedMain := some previousMain
        targetMain := some targetMain
        targetCommit := some targetMain
        status := .prepared
        preparedManifest :=
          { actorUserId := some actorUserId
            previousMain := some previousMain
            targetMain := some targetMain
            directoryIntents := some intents } })
  | .startOther operationId vaultId deviceId operationType main =>
    .ok (startRow db
      { operationId, vaultId, deviceId, operationType
        expectedMain := main
        targetMain := none
        targetCommit := none
        status := .started
        preparedManifest := {} })
  | .prepareRefUpdate operationId commit =>
    .ok (setOperation db operationId fun operation =>
      { operation with targetMain := some commit, targetCommit := some commit })
  | .setStatus operationId status =>
    .ok (setOperation db operationId fun operation => { operation with status })
  | .recordEvents vaultId events => .ok (appendEvents db vaultId events)
  | .acceptDirectoryProposal vaultId deviceId deviceCommit plan stamp =>
    DirectoryOperations.acceptDirectoryProposal db vaultId deviceId deviceCommit plan stamp
  | .commitMerge operationId vaultId deviceId deviceCommit mergeCommit plan stamp =>
    DirectoryOperations.commitMerge db operationId vaultId deviceId deviceCommit mergeCommit plan
      stamp
  | .commitResolution operationId vaultId conflictId resolutionCommit kind mainStamp resolvedId =>
    DirectoryOperations.commitResolution c db operationId vaultId conflictId resolutionCommit kind
      mainStamp resolvedId
  | .commitVaultSettings operationId stamp => commitVaultSettingsOperation db operationId stamp
  | .commitNameRepair operationId stamp => do
    let operation ← requireOperation db operationId
    match commitPreparedNameRepair db operation stamp with
    | some db => return db
    | none => throw (.error "Prepared name repair operation is invalid.")
  | .rollForward operationId verified stamp secondId =>
    .ok (rollForwardPreparedOperation db operationId verified stamp secondId)
  | .eraseVault vaultId => .ok (finalizeDb db vaultId)

structure World where
  db : MetadataDb
  dirsAfter : String → Nat → List Path

def World.init : World where
  db := {}
  dirsAfter := fun _ _ => []

/-- The directories after each event number that `after` reaches and `before` had not. -/
def observe (dirsAfter : String → Nat → List Path) (before after : MetadataDb) :
    String → Nat → List Path := fun vaultId seq =>
  if before.eventSeq vaultId < seq ∧ seq ≤ after.eventSeq vaultId then after.explicitDirs vaultId
  else dirsAfter vaultId seq

def step (world : World) (operation : Operation) : World :=
  match operation.apply c world.db with
  | .error _ => world
  | .ok db =>
    match operation with
    | .eraseVault vaultId => ⟨db, Function.update world.dirsAfter vaultId fun _ => []⟩
    | _ => ⟨db, observe world.dirsAfter world.db db⟩

def runFrom (world : World) (operations : List Operation) : World :=
  operations.foldl (step c) world

/-- The databases agree on events, sequence numbers and directories. -/
structure SameLog (a b : MetadataDb) : Prop where
  events : a.events = b.events
  seq : a.eventSeqByVault = b.eventSeqByVault
  state : a.directoryStateByVault = b.directoryStateByVault

/-- What happens to the vault's directory row in a mutation that appends events with the
given payloads. -/
inductive RowChange (vaultId : String) (payloads : List IntentsField) (before after : MetadataDb) : Prop
  | kept (state : after.directoryStateByVault vaultId = before.directoryStateByVault vaultId)
  | announced (intents : List DirectoryIntent) (rest : List IntentsField)
      (row : DirectoryStateRow) (payloads_eq : payloads = .array intents :: rest)
      (nonempty : intents ≠ []) (state : after.directoryStateByVault vaultId = some row)
      (seq : row.lastEventSeq = before.eventSeq vaultId + 1)
      (event : ∃ e ∈ after.events, e.vaultId = vaultId ∧ e.eventSeq = row.lastEventSeq ∧
        e.directoryIntents = .array intents)
  | rewritten (row : DirectoryStateRow) (payloads_eq : payloads = [.array []])
      (state : after.directoryStateByVault vaultId = some row)
      (seq : row.lastEventSeq = before.eventSeq vaultId + 1)
      (same : dirs row.explicitDirs = dirs (before.explicitDirs vaultId))

/-- A mutation appends events of one vault with the given payloads, in this order. -/
structure Effect (vaultId : String) (payloads : List IntentsField) (before after : MetadataDb) : Prop where
  seq : ∀ v, after.eventSeq v = before.eventSeq v + if v = vaultId then payloads.length else 0
  events : ∀ e ∈ after.events, e ∈ before.events ∨ (e.vaultId = vaultId ∧
    ∃ i, e.eventSeq = before.eventSeq vaultId + i + 1 ∧ payloads[i]? = some e.directoryIntents)
  elsewhere : ∀ v, v ≠ vaultId → after.directoryStateByVault v = before.directoryStateByVault v
  row : RowChange vaultId payloads before after

lemma SameLog.eventSeq {a b : MetadataDb} (h : SameLog a b) (v : String) : a.eventSeq v = b.eventSeq v := by
  rw [MetadataDb.eventSeq, MetadataDb.eventSeq, h.seq]

lemma SameLog.explicitDirs {a b : MetadataDb} (h : SameLog a b) (v : String) :
    a.explicitDirs v = b.explicitDirs v := by
  rw [MetadataDb.explicitDirs, MetadataDb.explicitDirs, h.state]

variable {after db before mid : MetadataDb} {vaultId : String}

lemma Effect.congr {payloads : List IntentsField}
    {before' after' : MetadataDb} (h : Effect vaultId payloads before after)
    (hb : SameLog before before') (ha : SameLog after after') : Effect vaultId payloads before' after' where
  seq v := by rw [← ha.eventSeq, ← hb.eventSeq, h.seq]
  events := by
    rw [← ha.events, ← hb.events, ← hb.eventSeq]
    exact h.events
  elsewhere := by
    rw [← ha.state, ← hb.state]
    exact h.elsewhere
  row := by
    cases h.row with
    | kept state => exact .kept (by rw [← ha.state, ← hb.state, state])
    | announced intents rest row payloads_eq nonempty state seq event =>
      exact .announced intents rest row payloads_eq nonempty (ha.state ▸ state)
        (hb.eventSeq vaultId ▸ seq) (ha.events ▸ event)
    | rewritten row payloads_eq state seq same =>
      exact .rewritten row payloads_eq (ha.state ▸ state) (hb.eventSeq vaultId ▸ seq)
        (hb.explicitDirs vaultId ▸ same)

/-- A mutation of other rows. -/
lemma effect_of_sameLog (vaultId : String) (h : SameLog before after) : Effect vaultId [] before after where
  seq v := by simp [h.eventSeq]
  events e he := .inl (h.events ▸ he)
  elsewhere v _ := by rw [h.state]
  row := .kept (by rw [h.state])

/-- One event, and then the intents that its payload lists. -/
lemma effect_announce (db : MetadataDb) (event : NewEvent) (intents : List DirectoryIntent)
    (now : Nat) (h : intents ≠ [] → event.directoryIntents = .array intents) :
    Effect event.vaultId [event.directoryIntents] db
      (applyDirectoryIntents (appendEvent db event).1 event.vaultId intents
        (appendEvent db event).2.eventSeq now) := by
  by_cases hempty : intents.length = 0
  · rw [applyDirectoryIntents, if_pos hempty]
    refine ⟨fun v => by simp, fun e he => ?_, fun v _ => rfl, .kept rfl⟩
    rcases mem_appendEvent_events db event he with he | rfl
    · exact .inl he
    · exact .inr ⟨rfl, 0, rfl, rfl⟩
  · have hne : intents ≠ [] := fun h => hempty (by simp [h])
    have hpay := h hne
    rw [applyDirectoryIntents, if_neg hempty]
    refine ⟨fun v => ?_, fun e he => ?_, fun v hv => ?_, ?_⟩
    · exact appendEvent_eventSeq db event v
    · rcases mem_appendEvent_events db event he with he | rfl
      · exact .inl he
      · exact .inr ⟨rfl, 0, rfl, rfl⟩
    · simp [Function.update_of_ne hv]
    · refine .announced intents [] _ (by rw [hpay]) hne (Function.update_self _ _ _) rfl ?_
      exact ⟨_, appendEvent_snd_mem db event, rfl, rfl, hpay⟩

/-- A second event of the same mutation, without directory intents. -/
lemma Effect.second {event next : NewEvent} (h : Effect event.vaultId [event.directoryIntents] db mid)
    (hevs : mid.events = (appendEvent db event).1.events) (hrow : event.directoryIntents = .array [] →
      mid.directoryStateByVault event.vaultId = db.directoryStateByVault event.vaultId)
    (hvault : next.vaultId = event.vaultId) (hnow : next.now = event.now) :
    Effect event.vaultId [event.directoryIntents, next.directoryIntents] db (appendEvent mid next).1 := by
  have hmid : mid.eventSeq event.vaultId = db.eventSeq event.vaultId + 1 := by simp [h.seq]
  refine ⟨fun v => ?_, fun e he => ?_, fun v hv => ?_, ?_⟩
  · rw [appendEvent_eventSeq, h.seq, hvault]
    split <;> simp
  · rcases mem_appendEvent_events mid next he with he | rfl
    · rcases h.events e he with hold | ⟨hv, i, hseq, hpay⟩
      · exact .inl hold
      obtain rfl : i = 0 := by
        by_contra hi
        rw [getElem?_eq_none (by simp; omega)] at hpay
        cases hpay
      exact .inr ⟨hv, 0, hseq, hpay⟩
    · refine .inr ⟨hvault, 1, ?_, rfl⟩
      rw [appendEvent_snd_eventSeq, hvault, hmid]
  · rw [appendEvent_directoryState, h.elsewhere v hv]
  · cases h.row with
    | kept state => exact .kept state
    | announced intents rest row payloads_eq nonempty state seq _ =>
      obtain ⟨hpay, rfl⟩ : event.directoryIntents = .array intents ∧ [] = rest := by
        simpa using payloads_eq
      refine .announced intents [next.directoryIntents] row (by rw [hpay]) nonempty state seq
        ⟨(appendEvent db event).2, ?_, rfl, seq.symm, hpay⟩
      -- the first event stands right before the second and is as new
      obtain ⟨older, holder⟩ := appendEvent_events_eq db event
      have hlog : mid.events ++ [(appendEvent mid next).2]
          = older ++ [(appendEvent db event).2, (appendEvent mid next).2] := by
        rw [hevs, holder, append_assoc]
        rfl
      exact mem_pruneVaultEvents hlog (by simp [eventRetentionLimit]) (by simp) hvault.symm (by rw [hnow]; rfl)
    | rewritten row payloads_eq state seq same =>
      have hpay : event.directoryIntents = .array [] := by simpa using payloads_eq
      exact .kept (hrow hpay)

/-- An event with an empty list announces nothing, and nothing is applied. -/
lemma state_of_empty_payload {event : NewEvent} {intents : List DirectoryIntent} {now : Nat}
    (h : intents ≠ [] → event.directoryIntents = .array intents) (hpay : event.directoryIntents = .array []) :
    (applyDirectoryIntents (appendEvent db event).1 event.vaultId intents
      (appendEvent db event).2.eventSeq now).directoryStateByVault = db.directoryStateByVault := by
  have hnil : intents = [] := by
    by_contra hne
    have := (h hne).symm.trans hpay
    exact hne (by simpa using this)
  simp [applyDirectoryIntents, hnil]

lemma effect_appendEvents (db : MetadataDb) (vaultId : String) (events : List (EventType × Stamp)) :
    Effect vaultId (List.replicate events.length .absent) db (appendEvents db vaultId events) := by
  induction events using reverseRecOn with
  | nil => exact effect_of_sameLog vaultId ⟨rfl, rfl, rfl⟩
  | append_singleton events event ih =>
    obtain ⟨eventType, stamp⟩ := event
    have hlast : appendEvents db vaultId (events ++ [(eventType, stamp)])
        = (appendEvent (appendEvents db vaultId events)
          { eventId := stamp.eventId, eventType, vaultId, now := stamp.now }).1 := by
      simp [appendEvents]
    rw [hlast]
    refine ⟨fun v => ?_, fun e he => ?_, fun v hv => ?_, ?_⟩
    · rw [appendEvent_eventSeq, ih.seq]
      by_cases hv : v = vaultId <;> simp [hv]
      omega
    · rcases mem_appendEvent_events _ _ he with he | rfl
      · rcases ih.events e he with hold | ⟨hv, i, hseq, hpay⟩
        · exact .inl hold
        obtain ⟨hi, habs⟩ := List.getElem?_eq_some_iff.mp hpay
        rw [length_replicate] at hi
        rw [getElem_replicate] at habs
        refine .inr ⟨hv, i, hseq, ?_⟩
        rw [← habs]
        exact getElem?_replicate_of_lt (by simp; omega)
      · refine .inr ⟨rfl, events.length, ?_, ?_⟩
        · rw [appendEvent_snd_eventSeq, ih.seq]
          simp
        · exact getElem?_replicate_of_lt (by simp)
    · rw [appendEvent_directoryState, ih.elsewhere v hv]
    · cases ih.row with
      | kept state => exact .kept state
      | announced intents rest row payloads_eq _ _ _ _ =>
        have hmem : IntentsField.array intents ∈ replicate events.length .absent := by
          rw [payloads_eq]
          exact mem_cons_self
        cases (mem_replicate.mp hmem).2
      | rewritten row payloads_eq _ _ _ =>
        have hmem : IntentsField.array [] ∈ replicate events.length .absent := by
          rw [payloads_eq]
          exact mem_cons_self
        cases (mem_replicate.mp hmem).2

/-- The mutation's effect on the log, where only a `silent` one may rewrite a directory row
behind an empty list of intents. -/
def Logged (silent : Prop) (before after : MetadataDb) : Prop :=
  ∃ vaultId payloads, Effect vaultId payloads before after ∧ (payloads = [.array []] →
      after.directoryStateByVault vaultId = before.directoryStateByVault vaultId ∨ silent)

variable {silent : Prop} {operation : SyncOperationRow} {dirsAfter : String → Nat → List Path}
  {stamp : Stamp} {c : Collation} {world : World} {v operationId deviceCommit deviceId : String}
  {seq : Nat}

lemma logged_of_sameLog (h : SameLog before after) : Logged silent before after :=
  ⟨"", [], effect_of_sameLog "" h, by simp⟩

lemma logged_announce (db : MetadataDb)
    (event : NewEvent) (intents : List DirectoryIntent) (now : Nat) (hbef : SameLog db before)
    (h : intents ≠ [] → event.directoryIntents = .array intents)
    (hafter : SameLog (applyDirectoryIntents (appendEvent db event).1 event.vaultId intents
      (appendEvent db event).2.eventSeq now) after) : Logged silent before after := by
  refine ⟨event.vaultId, [event.directoryIntents],
    (effect_announce db event intents now h).congr hbef hafter, fun hpay => .inl ?_⟩
  rw [← hafter.state, ← hbef.state, state_of_empty_payload h (by simpa using hpay)]

lemma logged_announce_second {next : NewEvent}
    (db : MetadataDb) (event : NewEvent) (intents : List DirectoryIntent) (now : Nat)
    (hbef : SameLog db before) (h : intents ≠ [] → event.directoryIntents = .array intents)
    (hmid : SameLog (applyDirectoryIntents (appendEvent db event).1 event.vaultId intents
      (appendEvent db event).2.eventSeq now) mid)
    (hvault : next.vaultId = event.vaultId) (hnow : next.now = event.now) :
    Logged silent before (appendEvent mid next).1 := by
  have heff := (effect_announce db event intents now h).congr ⟨rfl, rfl, rfl⟩ hmid
  have hevs : mid.events = (appendEvent db event).1.events := by
    rw [← hmid.events, applyDirectoryIntents]
    split <;> rfl
  have hrow : event.directoryIntents = .array [] →
      mid.directoryStateByVault event.vaultId = db.directoryStateByVault event.vaultId := by
    intro hpay
    rw [← hmid.state, state_of_empty_payload h hpay]
  exact ⟨event.vaultId, [event.directoryIntents, next.directoryIntents],
    (heff.second hevs hrow hvault hnow).congr hbef ⟨rfl, rfl, rfl⟩, by simp⟩

/-- The row's directory evidence always names a device. -/
def RowsNameDevices (db : MetadataDb) : Prop :=
  ∀ row ∈ db.syncOperations,
    row.preparedManifest.directoryPlan.isSome ∨ row.preparedManifest.directoryProposal.isSome → row.deviceId.isSome

lemma logged_commitDirectoryPlan
    (vaultId deviceId deviceCommit : String) (plan : Option DirectoryMergePlan) (stamp : Stamp)
    (hbef : SameLog db before) : Logged silent before (commitDirectoryPlan
      (appendEvent db (mainAdvanced vaultId (directoryEventPayload plan) stamp)).1
      vaultId deviceId deviceCommit plan
      (appendEvent db (mainAdvanced vaultId (directoryEventPayload plan) stamp)).2.eventSeq stamp.now) := by
  cases plan with
  | none =>
    exact logged_announce db (mainAdvanced vaultId .absent stamp) [] stamp.now hbef (by simp) ⟨rfl, rfl, rfl⟩
  | some plan =>
    exact logged_announce db (mainAdvanced vaultId (directoryEventPayload (some plan)) stamp)
      plan.proposal.directoryIntents stamp.now hbef (fun _ => rfl) ⟨rfl, rfl, rfl⟩

lemma logged_acceptDirectoryProposal {plan : DirectoryMergePlan}
    (h : acceptDirectoryProposal db vaultId deviceId deviceCommit plan stamp = .ok after) :
    Logged silent db after := by
  obtain ⟨_, _, h⟩ := bind_eq_ok.mp h
  cases h
  exact logged_commitDirectoryPlan vaultId deviceId deviceCommit (some plan) stamp ⟨rfl, rfl, rfl⟩

lemma logged_commitMerge {mergeCommit : String} {plan : Option DirectoryMergePlan}
    (h : commitMerge db operationId vaultId deviceId deviceCommit mergeCommit plan stamp
      = .ok after) : Logged silent db after := by
  obtain ⟨_, _, h⟩ := bind_eq_ok.mp h
  obtain ⟨_, _, h⟩ := bind_eq_ok.mp h
  obtain ⟨_, _, h⟩ := bind_eq_ok.mp h
  cases h
  exact logged_commitDirectoryPlan vaultId deviceId deviceCommit plan stamp ⟨rfl, rfl, rfl⟩

lemma sameLog_resolveDirectoryProposalResult (db : MetadataDb)
    (context : Option DirectoryConflictContext) (eventSeq : Nat) :
    SameLog db (resolveDirectoryProposalResult db context eventSeq) := by
  cases context with
  | none | some => exact ⟨rfl, rfl, rfl⟩

lemma logged_commitResolution {conflictId resolutionCommit : String} {kind : ConflictResolutionKind}
    {mainStamp : Stamp} {resolvedId : String}
    (h : commitResolution c db operationId vaultId conflictId resolutionCommit kind mainStamp
      resolvedId = .ok after) : Logged silent db after := by
  obtain ⟨_, _, h⟩ := bind_eq_ok.mp h
  obtain ⟨_, _, h⟩ := bind_eq_ok.mp h
  obtain ⟨conflict, _, h⟩ := bind_eq_ok.mp h
  obtain ⟨_, _, h⟩ := bind_eq_ok.mp h
  cases h
  refine logged_announce_second
    (markResolved (advanceMain db operationId vaultId resolutionCommit) vaultId conflictId)
    (mainAdvanced vaultId (directoryResolutionEventPayload conflict.directoryContext
      (resolvedConflictDirectoryIntents c conflict.directoryContext kind)) mainStamp)
    (resolvedConflictDirectoryIntents c conflict.directoryContext kind) mainStamp.now
    ⟨rfl, rfl, rfl⟩ (fun hne => ?_) (sameLog_resolveDirectoryProposalResult _ _ _) rfl rfl
  cases hcont : conflict.directoryContext with
  | none => simp [hcont, resolvedConflictDirectoryIntents] at hne
  | some context => rfl

lemma logged_commitVaultSettingsOperation
    (h : commitVaultSettingsOperation db operationId stamp = .ok after) : Logged silent db after := by
  obtain ⟨operation, _, h⟩ := bind_eq_ok.mp h
  obtain ⟨_, _, h⟩ := bind_eq_ok.mp h
  split at h
  · rename_i targetMain _ removed _ _ _
    split at h
    · cases h
    cases h
    exact logged_announce (advanceMain db operationId operation.vaultId targetMain)
      (mainAdvanced operation.vaultId (.array (deleteIntents removed)) stamp)
      (deleteIntents removed) stamp.now ⟨rfl, rfl, rfl⟩ (fun _ => rfl) ⟨rfl, rfl, rfl⟩
  · cases h

lemma logged_commitPreparedNameRepair
    (h : commitPreparedNameRepair db operation stamp = some after) : Logged silent db after := by
  rw [commitPreparedNameRepair] at h
  split at h
  · rename_i _ _ targetMain _ intents _ _ _ _ _
    split at h
    · cases h
    cases h
    exact logged_announce (advanceMain db operation.operationId operation.vaultId targetMain)
      (mainAdvanced operation.vaultId (.array intents) stamp) intents stamp.now
      ⟨rfl, rfl, rfl⟩ (fun _ => rfl) ⟨rfl, rfl, rfl⟩
  · cases h

/-- A recovery announces what it applies, because directory evidence names a device. -/
lemma recovered_payload (db : MetadataDb) (htgt : operation.targetCommit.isSome)
    (hdev : operation.preparedManifest.directoryPlan.isSome ∨
      operation.preparedManifest.directoryProposal.isSome → operation.deviceId.isSome) (eventSeq now : Nat) :
    ∃ intents, (intents ≠ [] → recoveredDirectoryEventPayload operation = .array intents) ∧
      SameLog (applyDirectoryIntents db operation.vaultId intents eventSeq now)
        (commitRecoveredDirectoryState db operation eventSeq now) := by
  cases hplan : operation.preparedManifest.directoryPlan with
  | some plan =>
    obtain ⟨deviceId, hid⟩ := Option.isSome_iff_exists.mp (hdev (.inl (by simp [hplan])))
    obtain ⟨target, htgt⟩ := Option.isSome_iff_exists.mp htgt
    refine ⟨plan.proposal.directoryIntents, fun _ => ?_, ?_⟩
    · simp [recoveredDirectoryEventPayload, hplan, hid, directoryEventPayload]
    · simp only [commitRecoveredDirectoryState, hplan, hid, htgt]
      exact ⟨rfl, rfl, rfl⟩
  | none =>
    cases hprop : operation.preparedManifest.directoryProposal with
    | none =>
      refine ⟨[], by simp, ?_⟩
      simp only [commitRecoveredDirectoryState, hplan, hprop]
      exact ⟨rfl, rfl, rfl⟩
    | some proposal =>
      obtain ⟨deviceId, hid⟩ := Option.isSome_iff_exists.mp (hdev (.inr (by simp [hprop])))
      refine ⟨operation.preparedManifest.resolvedDirectoryIntents, fun _ => ?_, ?_⟩
      · simp [recoveredDirectoryEventPayload, hplan, hprop, hid]
      simp only [commitRecoveredDirectoryState, hplan, hprop]
      split
      · exact ⟨rfl, rfl, rfl⟩
      split
      · exact ⟨rfl, rfl, rfl⟩
      · exact sameLog_resolveDirectoryProposalResult _ _ _

lemma logged_blockVault (db : MetadataDb) (vaultId : String) : Logged silent db (blockVault db vaultId) :=
  logged_of_sameLog ⟨rfl, rfl, rfl⟩

lemma sameLog_advanceRecovered (db : MetadataDb) (operation : SyncOperationRow)
    (targetMain : String) : SameLog (advanceRecovered db operation targetMain) db := by
  rw [advanceRecovered]
  split <;> exact ⟨rfl, rfl, rfl⟩

lemma logged_recordRecovered (hbef : SameLog db before) (htgt : operation.targetCommit.isSome)
    (hdev : operation.preparedManifest.directoryPlan.isSome ∨
      operation.preparedManifest.directoryProposal.isSome → operation.deviceId.isSome)
    (mainStamp : Stamp) (secondId : String) :
    Logged silent before (recordRecovered db operation mainStamp secondId) := by
  set event := mainAdvanced operation.vaultId (recoveredDirectoryEventPayload operation) mainStamp
    with hevent
  obtain ⟨intents, hpay, hstate⟩ := recovered_payload (appendEvent db event).1 htgt hdev
    (appendEvent db event).2.eventSeq mainStamp.now
  simp only [recordRecovered, ← hevent]
  split
  · exact logged_announce_second db event intents mainStamp.now hbef hpay hstate rfl rfl
  · exact logged_announce_second db event intents mainStamp.now hbef hpay hstate rfl rfl
  · exact logged_announce db event intents mainStamp.now hbef hpay hstate

lemma logged_rollForwardMain (hdev : operation.preparedManifest.directoryPlan.isSome ∨
      operation.preparedManifest.directoryProposal.isSome → operation.deviceId.isSome)
    (mainStamp : Stamp) (secondId : String) :
    Logged silent db (rollForwardMain db operation mainStamp secondId) := by
  rw [rollForwardMain]
  split
  · split
    · exact logged_blockVault db _
    refine logged_recordRecovered (sameLog_advanceRecovered db operation _) ?_ ?_ mainStamp
      secondId
    · rfl
    · exact hdev
  · exact logged_blockVault db _

/-- The settings roll-forward writes the directory row of a vault for an empty list. -/
def writesEmptySettings (db : MetadataDb) (operation : SyncOperationRow) : Prop :=
  ∃ vault previousMain targetMain, db.vaults.find? (·.vaultId = operation.vaultId) = some vault ∧
    operation.preparedManifest.previousMain = some previousMain ∧
    operation.preparedManifest.targetMain = some targetMain ∧
    operation.preparedManifest.actorUserId.isSome ∧
    operation.preparedManifest.removedDirectories = some [] ∧ vault.currentMain = previousMain ∧
    operation.expectedMain = some previousMain ∧ operation.targetMain = some targetMain ∧
    operation.targetCommit = some targetMain

/-- The settings roll-forward announces a non-empty list, and rewrites the row behind an
empty one. -/
lemma logged_rollForwardVaultSettings (stamp : Stamp) :
    Logged (writesEmptySettings db operation) db (rollForwardVaultSettings db operation stamp) := by
  rw [rollForwardVaultSettings]
  split
  · rename_i vault previousMain targetMain actorUserId removed hvault hprev htgt hactor hrem
    split
    · exact logged_blockVault db _
    rename_i hguard
    set event := mainAdvanced operation.vaultId (.array (deleteIntents removed)) stamp with hevent
    set advanced := advanceMain db operation.operationId operation.vaultId targetMain
      with hadv
    have hlog : SameLog advanced db := ⟨rfl, rfl, rfl⟩
    have hseq : ∀ v, (appendEvent advanced event).1.eventSeq v
        = db.eventSeq v + if v = operation.vaultId then 1 else 0 := fun v =>
      appendEvent_eventSeq advanced event v
    refine ⟨operation.vaultId, [.array (deleteIntents removed)], ⟨hseq, fun e he => ?_,
      fun v hv => ?_, ?_⟩, fun hpay => .inr ?_⟩
    · rcases mem_appendEvent_events advanced event he with he | rfl
      · exact .inl he
      · exact .inr ⟨rfl, 0, rfl, rfl⟩
    · exact Function.update_of_ne hv _ _
    · by_cases hempty : removed = []
      · subst hempty
        refine .rewritten _ rfl (Function.update_self _ _ _) rfl ?_
        ext q
        simp only [mem_dirs, mem_filter, contains_nil, Bool.not_false, and_true]
        exact Iff.rfl
      · refine .announced (deleteIntents removed) [] _ rfl (by simpa [deleteIntents] using hempty)
          (Function.update_self _ _ _) rfl ?_
        exact ⟨_, appendEvent_snd_mem advanced event, rfl, rfl, rfl⟩
    · have hnil : removed = [] := by simpa [deleteIntents] using hpay
      simp only [Bool.or_eq_true, decide_eq_true_eq, not_or, not_not] at hguard
      obtain ⟨⟨⟨hmain, hexp⟩, htm⟩, htc⟩ := hguard
      exact ⟨vault, previousMain, targetMain, hvault, hprev, htgt, hactor ▸ rfl, hnil ▸ hrem, hmain, hexp, htm, htc⟩
  · exact logged_blockVault db _

/-- The startup roll-forward of a settings change that removed no directory, where no guard blocks it. -/
def rollsForwardEmptySettings (db : MetadataDb) : Operation → Prop
  | .rollForward operationId verified _ _ => verified = true ∧
    ∃ operation, db.syncOperations.find? (·.operationId = operationId) = some operation ∧
      operation.operationType = .vaultSettings ∧ operation.status = .prepared ∧
      writesEmptySettings db operation
  | _ => False

lemma Logged.imp {p q : Prop} (h : Logged p before after) (hpq : p → q) : Logged q before after := by
  obtain ⟨vaultId, payloads, heff, hsil⟩ := h
  exact ⟨vaultId, payloads, heff, fun hpay => (hsil hpay).imp_right hpq⟩

lemma logged_rollForwardPreparedOperation (hrows : RowsNameDevices db)
    (operationId : String) (verified : Bool) (stamp : Stamp) (secondId : String) :
    Logged (rollsForwardEmptySettings db (.rollForward operationId verified stamp secondId)) db
      (rollForwardPreparedOperation db operationId verified stamp secondId) := by
  rw [rollForwardPreparedOperation]
  split
  · exact logged_of_sameLog ⟨rfl, rfl, rfl⟩
  rename_i operation hfind
  have hdev := hrows operation (mem_of_find?_eq_some hfind)
  split
  · exact logged_of_sameLog ⟨rfl, rfl, rfl⟩
  rename_i hstat
  split
  · exact logged_blockVault db _
  rename_i hver
  split
  · split
    · rename_i after hafter
      exact logged_commitPreparedNameRepair hafter
    · exact logged_blockVault db _
  · rename_i htype
    refine (logged_rollForwardVaultSettings stamp).imp fun hrem => ?_
    exact ⟨by simpa using hver, operation, hfind, htype, by simpa using hstat, hrem⟩
  · exact logged_rollForwardMain hdev stamp secondId
  · exact logged_rollForwardMain hdev stamp secondId
  · exact logged_rollForwardMain hdev stamp secondId
  · exact logged_of_sameLog ⟨rfl, rfl, rfl⟩

/-- Every mutation but a vault's erasure is logged. -/
lemma apply_logged {operation : Operation} (hrows : RowsNameDevices db) (h : operation.apply c db = .ok after)
    (herase : ∀ vaultId, operation ≠ .eraseVault vaultId) :
    Logged (rollsForwardEmptySettings db operation) db after := by
  cases operation with
  | writeRows | startServerMerge | startVaultSettings | startNameRepair | startOther
  | prepareRefUpdate | setStatus =>
    cases h
    exact logged_of_sameLog ⟨rfl, rfl, rfl⟩
  | startConflictResolve operationId vaultId conflictId main actorUserId kind =>
    obtain ⟨conflict, _, h⟩ := bind_eq_ok.mp h
    cases h
    exact logged_of_sameLog ⟨rfl, rfl, rfl⟩
  | recordEvents vaultId events =>
    cases h
    refine ⟨vaultId, _, effect_appendEvents db vaultId events, fun hpay => ?_⟩
    have hmem : IntentsField.array [] ∈ replicate events.length .absent := by
      rw [hpay]
      exact mem_cons_self
    cases (mem_replicate.mp hmem).2
  | acceptDirectoryProposal vaultId deviceId deviceCommit plan stamp =>
    exact logged_acceptDirectoryProposal h
  | commitMerge operationId vaultId deviceId deviceCommit mergeCommit plan stamp =>
    exact logged_commitMerge h
  | commitResolution operationId vaultId conflictId resolutionCommit kind mainStamp resolvedId =>
    exact logged_commitResolution h
  | commitVaultSettings operationId stamp => exact logged_commitVaultSettingsOperation h
  | commitNameRepair operationId stamp =>
    obtain ⟨operation, _, h⟩ := bind_eq_ok.mp h
    split at h
    · rename_i repaired hrep
      cases h
      exact logged_commitPreparedNameRepair hrep
    · cases h
  | rollForward operationId verified stamp secondId =>
    cases h
    exact logged_rollForwardPreparedOperation hrows operationId verified stamp secondId
  | eraseVault vaultId => exact absurd rfl (herase vaultId)

section Rows

variable {db : MetadataDb}

section
variable (h : RowsNameDevices db)
include h

lemma RowsNameDevices.of_eq (heq : after.syncOperations = db.syncOperations) : RowsNameDevices after := by
  rw [RowsNameDevices, heq]
  exact h

lemma RowsNameDevices.startRow {row : SyncOperationRow} (hrow : row.preparedManifest.directoryPlan.isSome ∨
      row.preparedManifest.directoryProposal.isSome → row.deviceId.isSome) : RowsNameDevices (startRow db row) := by
  exact forall_mem_concat.mpr ⟨h, hrow⟩

lemma RowsNameDevices.setOperation (operationId : String) {f : SyncOperationRow → SyncOperationRow}
    (hf : ∀ row, (f row).preparedManifest = row.preparedManifest ∧ (f row).deviceId = row.deviceId) :
    RowsNameDevices (setOperation db operationId f) := by
  refine forall_mem_updateFirst h fun row hrow => ?_
  rw [(hf row).1, (hf row).2]
  exact hrow

lemma RowsNameDevices.advanceMain (operationId vaultId main : String) :
    RowsNameDevices (advanceMain db operationId vaultId main) :=
  h.setOperation operationId fun _ => ⟨rfl, rfl⟩

end

@[simp] lemma applyDirectoryIntents_syncOperations (vaultId : String)
    (intents : List DirectoryIntent) (eventSeq now : Nat) :
    (applyDirectoryIntents db vaultId intents eventSeq now).syncOperations = db.syncOperations := by
  rw [applyDirectoryIntents]
  split <;> rfl

@[simp] lemma commitDirectoryPlan_syncOperations (vaultId deviceId deviceCommit : String)
    (plan : Option DirectoryMergePlan) (eventSeq now : Nat) :
    (commitDirectoryPlan db vaultId deviceId deviceCommit plan eventSeq now).syncOperations
      = db.syncOperations := by
  cases plan with
  | none => rfl
  | some plan => exact applyDirectoryIntents_syncOperations _ _ _ _

@[simp] lemma resolveDirectoryProposalResult_syncOperations
    (context : Option DirectoryConflictContext) (eventSeq : Nat) :
    (resolveDirectoryProposalResult db context eventSeq).syncOperations = db.syncOperations := by
  cases context <;> rfl

@[simp] lemma commitRecoveredDirectoryState_syncOperations (operation : SyncOperationRow)
    (eventSeq now : Nat) : (commitRecoveredDirectoryState db operation eventSeq now).syncOperations
      = db.syncOperations := by
  rw [commitRecoveredDirectoryState]
  split
  · simp
  split
  · rfl
  simp only
  split
  · simp
  · split <;> simp

@[simp] lemma appendEvents_syncOperations (vaultId : String) (events : List (EventType × Stamp)) :
    (appendEvents db vaultId events).syncOperations = db.syncOperations := by
  induction events generalizing db with
  | nil => rfl
  | cons event events ih => exact ih

section
variable (h : RowsNameDevices db)
include h

section
variable (operation : SyncOperationRow)

lemma RowsNameDevices.recordRecovered (mainStamp : Stamp) (secondId : String) :
    RowsNameDevices (recordRecovered db operation mainStamp secondId) := by
  refine h.of_eq ?_
  rw [DirectoryOperations.recordRecovered]
  split <;> simp

lemma RowsNameDevices.rollForwardMain (mainStamp : Stamp) (secondId : String) :
    RowsNameDevices (rollForwardMain db operation mainStamp secondId) := by
  rw [DirectoryOperations.rollForwardMain]
  split
  · split
    · exact h
    refine RowsNameDevices.recordRecovered ?_ _ mainStamp secondId
    rw [advanceRecovered]
    split <;> exact h.advanceMain operation.operationId operation.vaultId _
  · exact h

lemma RowsNameDevices.rollForwardVaultSettings (stamp : Stamp) :
    RowsNameDevices (rollForwardVaultSettings db operation stamp) := by
  rw [DirectoryOperations.rollForwardVaultSettings]
  split
  · split
    · exact h
    · exact h.advanceMain operation.operationId operation.vaultId _
  · exact h

end

lemma RowsNameDevices.commitPreparedNameRepair
    (hafter : commitPreparedNameRepair db operation stamp = some after) : RowsNameDevices after := by
  rw [DirectoryOperations.commitPreparedNameRepair] at hafter
  split at hafter
  · split at hafter
    · cases hafter
    cases hafter
    exact (h.advanceMain operation.operationId operation.vaultId _).of_eq
      (applyDirectoryIntents_syncOperations _ _ _ _)
  · cases hafter

lemma RowsNameDevices.rollForward (operationId : String) (verified : Bool) (stamp : Stamp) (secondId : String) :
    RowsNameDevices (rollForwardPreparedOperation db operationId verified stamp secondId) := by
  rw [rollForwardPreparedOperation]
  split
  · exact h
  split
  · exact h
  split
  · exact h
  split
  · split
    · rename_i hafter
      exact h.commitPreparedNameRepair hafter
    · exact h
  · exact h.rollForwardVaultSettings _ _
  · exact h.rollForwardMain _ _ _
  · exact h.rollForwardMain _ _ _
  · exact h.rollForwardMain _ _ _
  · exact h

lemma RowsNameDevices.apply {operation : Operation} (hafter : operation.apply c db = .ok after) :
    RowsNameDevices after := by
  cases operation with
  | writeRows vaults devices conflicts results =>
    cases hafter
    exact h
  | startServerMerge operationId vaultId deviceId main plan =>
    cases hafter
    exact h.startRow fun _ => rfl
  | startConflictResolve operationId vaultId conflictId main actorUserId kind =>
    obtain ⟨conflict, _, hafter⟩ := bind_eq_ok.mp hafter
    cases hafter
    exact h.startRow fun _ => rfl
  | startVaultSettings | startNameRepair | startOther =>
    cases hafter
    exact h.startRow (by simp)
  | prepareRefUpdate operationId | setStatus operationId =>
    cases hafter
    exact h.setOperation operationId fun _ => ⟨rfl, rfl⟩
  | recordEvents vaultId events =>
    cases hafter
    exact h.of_eq (appendEvents_syncOperations vaultId events)
  | acceptDirectoryProposal vaultId deviceId deviceCommit plan stamp =>
    obtain ⟨_, _, hafter⟩ := bind_eq_ok.mp hafter
    cases hafter
    exact h.of_eq (commitDirectoryPlan_syncOperations _ _ _ _ _ _)
  | commitMerge operationId vaultId deviceId deviceCommit mergeCommit plan stamp =>
    obtain ⟨_, _, hafter⟩ := bind_eq_ok.mp hafter
    obtain ⟨_, _, hafter⟩ := bind_eq_ok.mp hafter
    obtain ⟨_, _, hafter⟩ := bind_eq_ok.mp hafter
    cases hafter
    exact (h.advanceMain operationId vaultId mergeCommit).of_eq (commitDirectoryPlan_syncOperations _ _ _ _ _ _)
  | commitResolution operationId vaultId conflictId resolutionCommit kind mainStamp resolvedId =>
    obtain ⟨_, _, hafter⟩ := bind_eq_ok.mp hafter
    obtain ⟨_, _, hafter⟩ := bind_eq_ok.mp hafter
    obtain ⟨conflict, _, hafter⟩ := bind_eq_ok.mp hafter
    obtain ⟨_, _, hafter⟩ := bind_eq_ok.mp hafter
    cases hafter
    refine (h.advanceMain operationId vaultId resolutionCommit).of_eq ?_
    rw [appendEvent_syncOperations, resolveDirectoryProposalResult_syncOperations,
      applyDirectoryIntents_syncOperations]
    rfl
  | commitVaultSettings operationId stamp =>
    obtain ⟨operation, _, hafter⟩ := bind_eq_ok.mp hafter
    obtain ⟨_, _, hafter⟩ := bind_eq_ok.mp hafter
    split at hafter
    · split at hafter
      · cases hafter
      cases hafter
      exact (h.advanceMain operationId operation.vaultId _).of_eq (applyDirectoryIntents_syncOperations _ _ _ _)
    · cases hafter
  | commitNameRepair operationId stamp =>
    obtain ⟨operation, _, hafter⟩ := bind_eq_ok.mp hafter
    split at hafter
    · rename_i repaired hrep
      cases hafter
      exact h.commitPreparedNameRepair hrep
    · cases hafter
  | rollForward operationId verified stamp secondId =>
    cases hafter
    exact h.rollForward operationId verified stamp secondId
  | eraseVault vaultId =>
    cases hafter
    exact fun row hrow => h row (mem_filter.mp hrow).1

end

end Rows

/-- A payload that changes no directory. -/
def IsNeutral (payload : IntentsField) : Prop := payload = .absent ∨ payload = .array []

structure Inv (world : World) : Prop where
  rows : RowsNameDevices world.db
  bound : ∀ v, world.db.lastDirectoryEventSeq v ≤ world.db.eventSeq v
  current : ∀ v, dirs (world.dirsAfter v (world.db.eventSeq v)) = dirs (world.db.explicitDirs v)
  reached : ∀ e ∈ world.db.events, 0 < e.eventSeq ∧ e.eventSeq ≤ world.db.eventSeq e.vaultId
  neutral : ∀ e ∈ world.db.events, IsNeutral e.directoryIntents → dirs (world.dirsAfter e.vaultId e.eventSeq)
      = dirs (world.dirsAfter e.vaultId (e.eventSeq - 1))

lemma inv_init : Inv World.init where
  rows := by simp [RowsNameDevices, World.init]
  bound _ := le_rfl
  current _ := rfl
  reached := by simp [World.init]
  neutral := by simp [World.init]

lemma observe_of_le (h : seq ≤ before.eventSeq v) : observe dirsAfter before after v seq = dirsAfter v seq := by
  rw [observe, if_neg (by omega)]

lemma observe_of_lt (h : before.eventSeq v < seq) (h' : seq ≤ after.eventSeq v) :
    observe dirsAfter before after v seq = after.explicitDirs v := by
  rw [observe, if_pos ⟨h, h'⟩]

section Step

variable {vaultId : String} {payloads : List IntentsField} {before after : MetadataDb}

section
variable (h : Effect vaultId payloads before after)
include h

/-- A neutral first payload, or none at all, keeps the explicit directories. -/
lemma Effect.dirs_eq (hfirst : ∀ payload, payloads[0]? = some payload → IsNeutral payload) (v : String) :
    dirs (after.explicitDirs v) = dirs (before.explicitDirs v) := by
  by_cases hv : v = vaultId
  · subst hv
    cases h.row with
    | kept state => rw [explicitDirs, explicitDirs, state]
    | announced intents rest row payloads_eq nonempty _ _ _ =>
      have hneut := hfirst (.array intents) (by rw [payloads_eq]; rfl)
      rcases hneut with h | h
      · cases h
      · exact absurd (by simpa using h) nonempty
    | rewritten row _ state _ same => rw [explicitDirs, state, same]
  · rw [explicitDirs, explicitDirs, h.elsewhere v hv]

lemma Effect.seq_le (v : String) : before.eventSeq v ≤ after.eventSeq v := by
  rw [h.seq]
  omega

lemma Effect.bound (hbound : ∀ v, before.lastDirectoryEventSeq v ≤ before.eventSeq v) (v : String) :
    after.lastDirectoryEventSeq v ≤ after.eventSeq v := by
  by_cases hv : v = vaultId
  · subst hv
    cases h.row with
    | kept state =>
      rw [lastDirectoryEventSeq, state]
      exact (hbound v).trans (h.seq_le v)
    | announced _ _ _ payloads_eq _ state seq | rewritten _ payloads_eq state seq =>
      rw [lastDirectoryEventSeq, state, h.seq, payloads_eq]
      simp only [seq, if_true, length_cons]
      omega
  · rw [lastDirectoryEventSeq, h.elsewhere v hv]
    exact (hbound v).trans (h.seq_le v)

lemma Effect.inv (hinv : Inv ⟨before, dirsAfter⟩) (hrows : RowsNameDevices after) :
    Inv ⟨after, observe dirsAfter before after⟩ where
  rows := hrows
  bound := h.bound hinv.bound
  current v := by
    change dirs (observe dirsAfter before after v (after.eventSeq v)) = dirs (after.explicitDirs v)
    rcases Nat.lt_or_ge (before.eventSeq v) (after.eventSeq v) with hlt | hge
    · rw [observe_of_lt hlt le_rfl]
    have heq : after.eventSeq v = before.eventSeq v := le_antisymm hge (h.seq_le v)
    have hcur : dirs (dirsAfter v (before.eventSeq v)) = dirs (before.explicitDirs v) :=
      hinv.current v
    rw [heq, observe_of_le le_rfl, hcur]
    -- no event of `v` means an effect elsewhere or an empty one
    by_cases hv : v = vaultId
    · have hnil : payloads.length = 0 := by
        have := h.seq v
        simp only [hv, if_true] at this heq
        omega
      refine (h.dirs_eq (fun payload hpay => ?_) v).symm
      rw [length_eq_zero_iff.mp hnil] at hpay
      cases hpay
    · rw [explicitDirs, explicitDirs, h.elsewhere v hv]
  reached e he := by
    rcases h.events e he with hold | ⟨hv, i, hseq, hpay⟩
    · have hrch := hinv.reached e hold
      exact ⟨hrch.1, hrch.2.trans (h.seq_le _)⟩
    obtain ⟨hi, _⟩ := List.getElem?_eq_some_iff.mp hpay
    have hafter := h.seq e.vaultId
    simp only [hv, if_true] at hafter
    simp only [hv]
    omega
  neutral e he hneut := by
    change dirs (observe dirsAfter before after e.vaultId e.eventSeq)
      = dirs (observe dirsAfter before after e.vaultId (e.eventSeq - 1))
    rcases h.events e he with hold | ⟨hv, i, hseq, hpay⟩
    · have hrch : e.eventSeq ≤ before.eventSeq e.vaultId := (hinv.reached e hold).2
      rw [observe_of_le hrch, observe_of_le (by omega)]
      exact hinv.neutral e hold hneut
    obtain ⟨hi, _⟩ := List.getElem?_eq_some_iff.mp hpay
    have hafter := h.seq vaultId
    simp only [if_true] at hafter
    rw [hv, observe_of_lt (by omega) (by omega)]
    rcases Nat.eq_zero_or_pos i with rfl | hpos
    · have hprev : e.eventSeq - 1 = before.eventSeq vaultId := by omega
      rw [hprev, observe_of_le le_rfl]
      refine (h.dirs_eq (fun payload hfirst => ?_) vaultId).trans (hinv.current vaultId).symm
      rw [hpay] at hfirst
      exact Option.some.inj hfirst ▸ hneut
    · rw [observe_of_lt (by omega) (by omega)]

end

end Step

lemma inv_eraseVault (h : Inv world) (vaultId : String) :
    Inv ⟨finalizeDb world.db vaultId, Function.update world.dirsAfter vaultId fun _ => []⟩ := by
  have hseq : ∀ v, (finalizeDb world.db vaultId).eventSeq v
      = if v = vaultId then 0 else world.db.eventSeq v := by
    intro v
    by_cases hv : v = vaultId <;> simp [finalizeDb, eventSeq, hv]
  have hdirs : ∀ v, (finalizeDb world.db vaultId).explicitDirs v
      = if v = vaultId then [] else world.db.explicitDirs v := by
    intro v
    by_cases hv : v = vaultId <;> simp [finalizeDb, explicitDirs, hv]
  have hmem : ∀ e ∈ (finalizeDb world.db vaultId).events,
      e ∈ world.db.events ∧ e.vaultId ≠ vaultId := by
    intro e he
    simpa [finalizeDb] using he
  refine ⟨fun row hrow => h.rows row (mem_filter.mp hrow).1, fun v => ?_, fun v => ?_,
    fun e he => ?_, fun e he hneut => ?_⟩
  · by_cases hv : v = vaultId
    · simp [finalizeDb, lastDirectoryEventSeq, hv]
    · rw [hseq, if_neg hv]
      simpa [finalizeDb, lastDirectoryEventSeq, hv] using h.bound v
  · rw [hseq, hdirs]
    by_cases hv : v = vaultId
    · simp [hv]
    · simpa [hv] using h.current v
  · obtain ⟨hold, hv⟩ := hmem e he
    rw [hseq, if_neg hv]
    exact h.reached e hold
  · obtain ⟨hold, hv⟩ := hmem e he
    simpa [Function.update_of_ne hv] using h.neutral e hold hneut

lemma inv_step (h : Inv world) (operation : Operation) : Inv (step c world operation) := by
  rw [step]
  split
  · exact h
  rename_i after hafter
  have hrows := h.rows.apply hafter
  split
  · rename_i vaultId
    cases hafter
    exact inv_eraseVault h vaultId
  rename_i herase
  obtain ⟨vaultId, payloads, heff, _⟩ := apply_logged h.rows hafter herase
  exact heff.inv h hrows

lemma inv_runFrom (operations : List Operation) (h : Inv world) : Inv (runFrom c world operations) := by
  induction operations generalizing world with
  | nil => exact h
  | cons operation operations ih => exact ih (inv_step h operation)

/-- Between the two ends of a neutral gap every number belongs to a neutral event. -/
lemma exists_neutral_event {a t : Nat}
    (h : hasContiguousDirectoryNeutralEventGap db v a t) {n : Nat} (han : a < n) (hnt : n ≤ t) :
    ∃ e ∈ db.events, e.vaultId = v ∧ e.eventSeq = n ∧ IsNeutral e.directoryIntents := by
  rw [hasContiguousDirectoryNeutralEventGap] at h
  split at h
  · cases h
  simp only at h
  split at h
  · cases h
  rename_i hcount
  set events := sortBy (compareOn EventEnvelope.eventSeq) (db.events.filter fun event =>
    event.vaultId = v && a < event.eventSeq && event.eventSeq ≤ t) with hevs
  have hlen : events.length = t - a := by simpa using hcount
  obtain ⟨e, he⟩ : ∃ e, events[n - a - 1]? = some e :=
    ⟨_, getElem?_eq_getElem (by omega)⟩
  have hall := all_eq_true.mp h (e, n - a - 1) (mem_zipIdx_iff_getElem?.mpr he)
  have hmem := mem_of_getElem? he
  rw [hevs, mem_sortBy, mem_filter] at hmem
  simp only [isDirectoryNeutralAt, Bool.and_eq_true, decide_eq_true_eq] at hall hmem
  refine ⟨e, hmem.1, hmem.2.1.1, by omega, ?_⟩
  cases hpay : e.directoryIntents with
  | absent => exact .inl rfl
  | notArray => simp [hpay] at hall
  | array intents =>
    have hnil : intents = [] := by simpa [hpay] using hall.1.2
    exact .inr (by rw [hnil])

/-- A neutral gap hides no change of the explicit directories. -/
lemma Inv.gap_sound (h : Inv world) {a t : Nat} (hgap : hasContiguousDirectoryNeutralEventGap world.db v a t) :
    dirs (world.dirsAfter v a) = dirs (world.dirsAfter v t) := by
  have hat : a ≤ t := by
    by_contra hlt
    simp [hasContiguousDirectoryNeutralEventGap, show t ≤ a by omega] at hgap
  have hchain : ∀ k, a + k ≤ t → dirs (world.dirsAfter v (a + k)) = dirs (world.dirsAfter v a) := by
    intro k
    induction k with
    | zero => exact fun _ => rfl
    | succ k ih =>
      intro hk
      obtain ⟨e, he, hv, hseq, hneut⟩ :=
        exists_neutral_event hgap (show a < a + (k + 1) by omega) hk
      have hstep := h.neutral e he hneut
      rw [hv, hseq] at hstep
      rw [hstep, show a + (k + 1) - 1 = a + k by omega]
      exact ih (by omega)
  have hlast := hchain (t - a) (by omega)
  rw [show a + (t - a) = t by omega] at hlast
  exact hlast.symm

/-- Every changed directory row records the number of an event of this mutation that lists
intents. -/
def Announced (before after : MetadataDb) : Prop :=
  ∀ v, after.directoryStateByVault v ≠ before.directoryStateByVault v →
    ∃ row intents, after.directoryStateByVault v = some row ∧ intents ≠ [] ∧
      ∃ e ∈ after.events, e.vaultId = v ∧ before.eventSeq v < e.eventSeq ∧
        e.eventSeq = row.lastEventSeq ∧ e.directoryIntents = .array intents

lemma Logged.announced (h : Logged silent before after) (hsil : ¬ silent) : Announced before after := by
  obtain ⟨vaultId, payloads, heff, hquiet⟩ := h
  intro v hchg
  by_cases hv : v = vaultId
  · subst hv
    cases heff.row with
    | kept state => exact absurd state hchg
    | announced intents rest row payloads_eq nonempty state seq event =>
      obtain ⟨e, he, hvault, hseq, hpay⟩ := event
      exact ⟨row, intents, state, nonempty, e, he, hvault, by omega, hseq, hpay⟩
    | rewritten row payloads_eq _ _ _ =>
      exact ((hquiet payloads_eq).elim hchg hsil).elim
  · exact absurd (heff.elsewhere v hv) hchg

lemma runFrom_concat (c : Collation) (world : World) (operations : List Operation)
    (operation : Operation) : runFrom c world (operations ++ [operation])
      = step c (runFrom c world operations) operation := by
  simp [runFrom]

/-- In every run neutral gaps are sound and the recorded number never exceeds the vault's event sequence;
and every mutation but the roll-forward of a settings change that removed nothing announces the
directory rows it changes. -/
theorem directory_changes_announced (c : Collation) (operations : List Operation) :
    let world := runFrom c World.init operations
    (∀ v a t, hasContiguousDirectoryNeutralEventGap world.db v a t = true →
      dirs (world.dirsAfter v a) = dirs (world.dirsAfter v t)) ∧
    (∀ v, world.db.lastDirectoryEventSeq v ≤ world.db.eventSeq v) ∧
    (∀ earlier operation later, operations = earlier ++ operation :: later →
      (∀ vaultId, operation ≠ .eraseVault vaultId) →
      ¬ rollsForwardEmptySettings (runFrom c World.init earlier).db operation →
      Announced (runFrom c World.init earlier).db
        (runFrom c World.init (earlier ++ [operation])).db) := by
  intro world
  have hinv : Inv world := inv_runFrom operations inv_init
  refine ⟨fun v a t => hinv.gap_sound, hinv.bound, ?_⟩
  rintro earlier operation later - herase hnot
  have hbef : Inv (runFrom c World.init earlier) := inv_runFrom earlier inv_init
  rw [runFrom_concat, step]
  split
  · exact fun v hchg => absurd rfl hchg
  rename_i after hafter
  have hlogg := apply_logged hbef.rows hafter herase
  split
  · rename_i vaultId
    exact absurd rfl (herase vaultId)
  · exact hlogg.announced hnot

/-- A name repair, prepared and committed. -/
def nameRepairRun : List Operation :=
  [.writeRows [⟨"vault", .active, "main0"⟩] [] [] [],
    .startNameRepair "operation" "vault" "user" "main0" "main1" [⟨.create, ⟨"a/b"⟩⟩],
    .commitNameRepair "operation" ⟨"event", 0⟩]

theorem directory_changes_announced_name_repair :
    (runFrom codePointCollation World.init nameRepairRun).db.directoryStateByVault "vault"
        = some ⟨[⟨"a"⟩, ⟨"a/b"⟩], 0, 1⟩ ∧
      Announced (runFrom codePointCollation World.init (nameRepairRun.take 2)).db
        (runFrom codePointCollation World.init nameRepairRun).db := by
  refine ⟨by decide, ?_⟩
  exact (directory_changes_announced codePointCollation nameRepairRun).2.2
    (nameRepairRun.take 2) _ [] rfl (by simp) id

/-- A settings change with nothing to remove, prepared and then rolled forward at startup. -/
def emptySettingsRun : List Operation :=
  [.writeRows [⟨"vault", .active, "main0"⟩] [] [] [],
    .startVaultSettings "operation" "vault" "user" "main0" "main1" [],
    .rollForward "operation" true ⟨"event", 0⟩ ""]

/-- The roll-forward creates the vault's directory row with the number of an event that lists
no intents. -/
theorem empty_settings_rollForward_not_announced :
    ¬ Announced (runFrom codePointCollation World.init (emptySettingsRun.take 2)).db
      (runFrom codePointCollation World.init emptySettingsRun).db := by
  intro h
  obtain ⟨_, intents, _, hne, e, he, _, _, _, hpay⟩ := h "vault" (by decide)
  have hevs : (runFrom codePointCollation World.init emptySettingsRun).db.events
      = [⟨"event", 1, .mainAdvanced, "vault", .array [], some 0⟩] := by decide
  rw [hevs, mem_singleton] at he
  rw [he] at hpay
  exact hne (by simpa using hpay.symm)

end DirectoryEvents
