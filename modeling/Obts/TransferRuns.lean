import Obts.ChunkTransfers

/-!
# Transfer runs

The chunk transfer service taking step after step, restarts included. A step is within bounds when
the clock, the result of the push and the number of failed attempts fit the record; a run of such
steps leaves only records on disk that the parser reads back unchanged. The sixty-fifth failed
attempt is not within bounds, and its record is lost.
-/
namespace TransferRuns

open InsertionOrder JsonRecords IsoTimestamps PathPolicy PushManifests SlashPath TransferSessions List Nat Option
open Metadata
open ChunkTransfers

/-- The steps of the service. `remove` is any removal of a transfer's directory. -/
inductive Label where
  | createPush (auth : AuthenticatedDevice) (call : CreateCall)
  | getPush (auth : AuthenticatedDevice) (transferId : String) (call : Call)
  | putChunk (auth : AuthenticatedDevice) (transferId : String) (call : Call) (chunk : Chunk) (files : ChunkStorage)
  | finalizePush (auth : AuthenticatedDevice) (transferId : String) (call : Call) (pushed : Option Pushed)
  | beginFinalizePush (auth : AuthenticatedDevice) (transferId : String) (call : Call)
  | processPendingPush (auth : AuthenticatedDevice) (transferId : String) (call : Call)
      (attempt : Attempt) (retryFrom : Nat)
  | drain (transferId vaultId : String) (deviceId : Option String) (updatedAt : Nat)
  | repairAccounting (transferId : String) (actual : Nat)
  | reopen (transferId : String) (readAt : Nat) (deletionBlocked : Bool) (retryAt updatedAt : Nat)
  | remove (transferId : String)

def writeIfAny (disk : Disk) : Option PushSession → Disk
  | some session => writeSession disk session
  | none => disk

variable (rt : Runtime) (config : ServerConfig) (disk : Disk)

def step : Label → Disk
  | .createPush auth call => createPush rt config auth disk call
  | .getPush auth transferId call =>
    settle disk transferId (getPush rt config auth disk transferId call)
  | .putChunk auth transferId call chunk files =>
    settle disk transferId (putChunk rt config auth disk transferId call chunk files)
  | .finalizePush auth transferId call pushed =>
    settle disk transferId (finalizePush rt config auth disk transferId call pushed)
  | .beginFinalizePush auth transferId call =>
    settle disk transferId (beginFinalizePush rt config auth disk transferId call)
  | .processPendingPush auth transferId call attempt retryFrom =>
    settle disk transferId (processPendingPush rt config auth disk transferId call attempt retryFrom)
  | .drain transferId vaultId deviceId updatedAt =>
    writeIfAny disk (drain rt config disk transferId vaultId deviceId updatedAt)
  | .repairAccounting transferId actual =>
    writeIfAny disk (repairAccounting rt config disk transferId actual)
  | .reopen transferId readAt deletionBlocked retryAt updatedAt =>
    writeIfAny disk (reopen rt config disk transferId readAt deletionBlocked retryAt updatedAt)
  | .remove transferId => delete disk transferId

def run (labels : List Label) : Disk :=
  labels.foldl (step rt config) disk

/-- The clock reads a time from the session's creation to the end of the year 9999. -/
def stampOk (session : PushSession) (now : Nat) : Bool :=
  now < endOfTime && (dateParse session.createdAt).getD 0 ≤ now

def callOk (call : Call) (session : PushSession) : Bool :=
  stampOk session call.updatedAt && expiry config call.expiresFrom < endOfTime

/-- A rejection has a code and a message of the lengths that a record takes. -/
def textsOk (code message : String) : Bool := isBoundedText 128 code && isBoundedText 2048 message

variable (manifest : DevicePushManifest)

/-- The vault's event number is safe, and an acknowledged proposal names its intents by ids of at most
256 characters and by safe generations, neither of which its validator asks for. -/
def headOk (head : PushedHead) : Bool :=
  head.eventSeq ≤ maxSafeInteger && (head.directoryStatus.isNone ||
    manifest.directoryProposal.all fun proposal => proposal.intents.all fun intent =>
      isBoundedIdentifier intent.intentId && intent.generation ≤ maxSafeInteger)

def pushedOk : Pushed → Bool
  | .noop head | .merged head _ | .conflicted head _ => headOk manifest head
  | .rejected code message => textsOk code message

/-- A transfer is completed at once only when it has no processing error on record. -/
def finalizeOk (call : Call) (pushed : Option Pushed) (session : PushSession) : Bool :=
  stampOk session call.updatedAt && pushed.all fun pushed =>
    match pushed with
    | .rejected _ _ => true
    | pushed => pushedOk session.manifest pushed && session.processingErrorCode.join.isNone &&
      session.retryAt.join.isNone

/-- The push fits the record, and a failed attempt is at most the sixty-fourth. -/
def attemptOk (call : Call) (retryFrom : Nat) (attempt : Attempt) (session : PushSession) : Bool :=
  match attempt.effective with
  | .durabilityError => true
  | .result pushed => stampOk session call.updatedAt && pushedOk session.manifest pushed
  | .authError error => stampOk session call.updatedAt && textsOk error.code error.message
  | .failed _ => callOk config call session && session.processingAttempts.getD 0 < maxProcessingAttempts &&
      retryFrom + retryMs (session.processingAttempts.getD 0 + 1) < endOfTime

def meets : Label → Bool
  | .createPush _ call => call.createdAt < endOfTime &&
      expiry config call.expiresFrom < endOfTime && call.measured ≤ maxStoredBytes
  | .getPush _ transferId call => (readSession rt config disk transferId).all (callOk config call)
  | .putChunk _ transferId call _ _ =>
    (readSession rt config disk transferId).all (callOk config call)
  | .finalizePush _ transferId call pushed =>
    (readSession rt config disk transferId).all (finalizeOk call pushed)
  | .beginFinalizePush _ transferId call =>
    (readSession rt config disk transferId).all (callOk config call)
  | .processPendingPush _ transferId call attempt retryFrom =>
    (readSession rt config disk transferId).all (attemptOk config call retryFrom attempt)
  | .drain transferId _ _ updatedAt =>
    (readSession rt config disk transferId).all (stampOk · updatedAt)
  | .repairAccounting _ _ => true
  | .reopen transferId _ _ retryAt updatedAt =>
    (readSession rt config disk transferId).all fun session =>
      stampOk session updatedAt && retryAt < endOfTime
  | .remove _ => true

/-- Every step of the run meets its condition in the state that it starts from. -/
def allMeet (rt : Runtime) (config : ServerConfig) (disk : Disk) : List Label → Bool
  | [] => true
  | label :: labels =>
    meets rt config disk label && allMeet rt config (step rt config disk label) labels

/-- Every record on disk is the record of a storable session with that id. -/
def Kept : Prop :=
  ∀ entry ∈ disk, ∃ session : PushSession, session.transferId = entry.1 ∧
    entry.2 = session.toJson ∧ Storable rt.collation rt.normalization session

variable {rt : Runtime} {config : ServerConfig} {disk : Disk} {auth : AuthenticatedDevice}
  {transferId : String} {session : PushSession} {call : Call} {request : ChunkPushCreateRequest}
  {now retryFrom measured updatedAt : Nat} {files : ChunkStorage} {gitCommand : Bool}
  {chunk : Chunk}

section
variable (h : Kept rt disk)
include h

/-- What a kept record reads as. -/
lemma Kept.read (hread : readSession rt config disk transferId = some session) :
    session.transferId = transferId ∧ Storable rt.collation rt.normalization session ∧
      verifySessionStructure config session := by
  obtain ⟨value, hvalue, hprs⟩ := bind_eq_some_iff.mp hread
  obtain ⟨hprs, hver⟩ := filter_eq_some_iff.mp hprs
  obtain ⟨kept, hid, hrec, hsto⟩ := h _ (mem_of_valueAt hvalue)
  subst hid hrec
  cases (parsePersistedPushSession_toJson hsto).symm.trans hprs
  exact ⟨rfl, hsto, hver⟩

lemma Kept.write (hsess : Storable rt.collation rt.normalization session) :
    Kept rt (writeSession disk session) := by
  intro entry hentry
  rcases mem_set.mp hentry with rfl | ⟨-, hold⟩
  · exact ⟨session, rfl, rfl, hsess⟩
  · exact h entry hold

lemma Kept.delete (transferId : String) : Kept rt (delete disk transferId) :=
  fun entry hentry => h entry (mem_filter.mp hentry).1

lemma Kept.pruneExpired (now : Nat) : Kept rt (pruneExpired rt config disk now) := by
  unfold ChunkTransfers.pruneExpired
  generalize (listSessions rt config disk).filter (expired · now) = sessions
  induction sessions generalizing disk with
  | nil => exact h
  | cons session sessions ih => exact ih (h.delete session.transferId)

lemma Kept.settle {outcome : Except Refusal (Option PushSession)}
    (hwrs : ∀ session, outcome = .ok (some session) → Storable rt.collation rt.normalization session) :
    Kept rt (settle disk transferId outcome) := by
  unfold ChunkTransfers.settle
  split
  · exact h.write (hwrs _ rfl)
  · exact h
  · split
    · exact h.delete transferId
    · exact h

lemma Kept.writeIfAny {written : Option PushSession} (hwrs : ∀ session, written = some session →
      Storable rt.collation rt.normalization session) : Kept rt (writeIfAny disk written) := by
  cases written with
  | none => exact h
  | some session => exact h.write (hwrs session rfl)

end

/-- A session that an operation goes on with was read from the disk. -/
lemma requireSession_eq_ok {usable : Bool}
    (h : requireSession rt config auth disk transferId now usable = .ok session) :
    readSession rt config disk transferId = some session := by
  unfold requireSession at h
  split at h
  · cases h
  split at h
  · cases h
  rename_i found hread
  split at h
  · cases h
  split at h
  · cases h
  split at h
  · cases h
  cases h
  exact hread

section Writers

variable {c : Collation} {u : Normalization} {session : PushSession}

lemma matchesClass_iff {cls : Char → Bool} {low high : Nat} {text : List Char} :
    matchesClass cls low high text ↔ low ≤ text.length ∧ text.length ≤ high ∧ ∀ ch ∈ text, cls ch := by
  simp [matchesClass, and_assoc]

/-- A commit is a short text. -/
lemma isBoundedText_of_isCommitId {text : String} (h : isCommitId text) : isBoundedText 512 text := by
  obtain ⟨hlow, hhigh, -⟩ := matchesClass_iff.mp h
  have hunits : ∀ chars : List Char, utf16Length chars ≤ 2 * chars.length := by
    intro chars
    induction chars with
    | nil => exact le_rfl
    | cons ch chars ih =>
      have hch : (utf16 ch).length ≤ 2 := by
        unfold utf16
        split <;> simp
      simp only [utf16Length, flatMap_cons, length_append, length_cons] at ih ⊢
      omega
  have hlen := hunits text.toList
  have hne : text ≠ "" := by
    rintro rfl
    exact absurd hlow (by decide)
  simp only [isBoundedText, Bool.and_eq_true, decide_eq_true_eq]
  exact ⟨hne, by omega⟩

/-- The id that a legacy intent is given. -/
lemma isBoundedIdentifier_legacy {digest : String} (h : isSha256 digest) :
    isBoundedIdentifier ("legacy_" ++ String.ofList (digest.toList.take 24)) := by
  obtain ⟨-, -, hhex⟩ := matchesClass_iff.mp h
  refine matchesClass_iff.mpr ?_
  simp only [String.toList_append, String.toList_ofList, length_append, length_take]
  have hseven : "legacy_".toList.length = 7 := by decide
  refine ⟨by omega, by omega, fun ch hmem => ?_⟩
  rcases mem_append.mp hmem with hmem | hmem
  · exact all_eq_true.mp (by decide : "legacy_".toList.all isIdentifierChar = true) ch hmem
  · have hch := hhex ch (mem_of_mem_take hmem)
    simp only [isLowerHex, isIdentifierChar, isAsciiLetter, isDigit, Bool.or_eq_true, Bool.and_eq_true,
      decide_eq_true_eq] at hch ⊢
    omega

lemma isDirectoryAcknowledgement_of_headOk {manifest : DevicePushManifest} {head : PushedHead}
    {value : Json} {status : AcknowledgementStatus} {ack : DirectoryAcknowledgement}
    (hprs : parseDevicePushManifest c u value = .ok manifest) (hok : headOk manifest head)
    (hstat : head.directoryStatus = some status)
    (hack : directoryAcknowledgement rt manifest status = some ack) : isDirectoryAcknowledgement ack := by
  obtain ⟨hprop, hints⟩ := parseDevicePushManifest_eq_ok hprs
  simp only [headOk, hstat, isNone_some, Bool.false_or, Bool.and_eq_true] at hok
  simp only [isDirectoryAcknowledgement, Bool.and_eq_true, decide_eq_true_eq]
  unfold directoryAcknowledgement at hack
  split at hack
  · rename_i proposal hsome
    cases hack
    obtain ⟨hid, hlen⟩ := hprop proposal hsome
    rw [hsome] at hok
    refine ⟨⟨hid, by simpa using hlen⟩, ?_⟩
    rw [List.all_map]
    exact hok.2
  · rename_i intent intents _ hsome
    cases hack
    have hlen := hints _ hsome
    have hdig := rt.isSha256_proposalSha256 manifest
    refine ⟨⟨?_, by simpa using hlen⟩, ?_⟩
    · simp only [isProposalId, Bool.and_eq_true]
      exact ⟨by simp, by simpa [isSha256] using hdig⟩
    rw [List.all_map, List.all_eq_true]
    rintro ⟨intent, index⟩ hmem
    have hindex := mem_zipIdx hmem
    simp only [Function.comp, isAcknowledgement, Bool.and_eq_true, decide_eq_true_eq]
    refine ⟨isBoundedIdentifier_legacy (rt.isSha256_intentSha256 intent index), ?_⟩
    have hmax : maxSafeInteger = 9007199254740991 := rfl
    omega
  · cases hack

/-- A push that fits has a result that the parser accepts. -/
lemma isPushResult_result {pushed : Pushed} (hsess : Storable c u session)
    (hok : pushedOk session.manifest pushed) : isPushResult (pushed.result rt session.manifest) := by
  have happl : ∀ head, headOk session.manifest head → isApplied (head.applied rt session.manifest) := by
    intro head hhead
    simp only [isApplied, PushedHead.applied, Bool.and_eq_true]
    refine ⟨⟨⟨isBoundedText_of_isCommitId head.deviceRef.2, head.main.2⟩, (Bool.and_eq_true_iff.mp hhead).1⟩, ?_⟩
    rw [Option.all_eq_true]
    intro ack hack
    obtain ⟨status, hstat, hack⟩ := bind_eq_some_iff.mp hack
    exact isDirectoryAcknowledgement_of_headOk hsess.identity.manifest hhead hstat hack
  cases pushed with
  | noop head => exact happl head hok
  | merged head mergeCommit => exact Bool.and_eq_true_iff.mpr ⟨happl head hok, mergeCommit.2⟩
  | conflicted head conflictId => exact Bool.and_eq_true_iff.mpr ⟨happl head hok, conflictId.2⟩
  | rejected code message => exact hok

/-- A writer that only moves the processing on keeps everything else storable. -/
lemma storable_progress (h : Storable c u session) {status : SessionStatus}
    {result : Option PushResult} {attempts : Option Nat}
    {code : Option (Option ProcessingErrorCode)} {retry : Option (Option String)}
    {updated expires : String} (hprog : ProgressStorable { session with
      status := status, result := result, processingAttempts := attempts
      processingErrorCode := code, retryAt := retry, updatedAt := updated, expiresAt := expires }) :
    Storable c u { session with
      status := status, result := result, processingAttempts := attempts
      processingErrorCode := code, retryAt := retry, updatedAt := updated, expiresAt := expires } :=
  ⟨{ h.identity with }, { h.received with }, hprog⟩

lemma stampOk_iff : stampOk session now ↔ now < endOfTime ∧ (dateParse session.createdAt).getD 0 ≤ now := by
  simp [stampOk]

lemma ordered_of_stampOk (h : stampOk session now) :
    (dateParse session.createdAt).getD 0 ≤ (dateParse (toISOString now)).getD 0 := by
  rw [dateParse_toISOString (stampOk_iff.mp h).1]
  exact (stampOk_iff.mp h).2

lemma updated_of_stampOk (h : stampOk session now) : isIsoTimestamp (toISOString now) :=
  isIsoTimestamp_toISOString (stampOk_iff.mp h).1

/-- Open and processing sessions carry no result. -/
lemma result_none (h : ProgressStorable session)
    (hstat : session.status = .opened ∨ session.status = .processing) : session.result = none := by
  have hcomb := h.resultCombination
  rcases hstat with hstat | hstat <;>
    simpa [isSessionResultCombination, hstat] using hcomb

lemma retry_balanced (h : ProgressStorable session)
    (hstat : session.status = .opened ∨ session.status = .processing) :
    session.processingErrorCode.join.isSome = session.retryAt.join.isSome := by
  have hcomb := h.retryCombination
  rcases hstat with hstat | hstat <;>
    simpa [isRetryCombination, hstat] using hcomb

section
variable (h : Storable c u session) {result : PushResult}
include h

/-- An open or processing session with all its chunks goes on to processing. -/
lemma storable_processing (hstat : session.status = .opened ∨ session.status = .processing)
    (hcpl : session.receipts.length = session.chunkCount)
    (hcall : callOk config call session) : Storable c u { session with
      status := .processing
      updatedAt := toISOString call.updatedAt
      expiresAt := toISOString (expiry config call.expiresFrom) } := by
  simp only [callOk, Bool.and_eq_true, decide_eq_true_eq] at hcall
  have hprog := h.progress
  refine storable_progress h ?_
  exact { hprog with
    updatedAt := updated_of_stampOk hcall.1
    expiresAt := isIsoTimestamp_toISOString hcall.2
    ordered := ordered_of_stampOk hcall.1
    resultCombination := by
      simp [isSessionResultCombination, result_none hprog hstat]
    retryCombination := by
      simp [isRetryCombination, retry_balanced hprog hstat]
    complete := fun _ => hcpl }

lemma storable_settled (hres : isPushResult result) (hstamp : stampOk session now) :
    Storable c u (settledSession session result now) := by
  have hprog := h.progress
  refine storable_progress h ?_
  exact { hprog with
    updatedAt := updated_of_stampOk hstamp
    ordered := ordered_of_stampOk hstamp
    resultCombination := by
      cases hrej : result.isRejected <;> simp [isSessionResultCombination, hrej]
    result := by
      intro stored hsto
      cases hsto
      exact hres
    retryAt := by simp
    retryCombination := by
      cases result.isRejected <;> simp [isRetryCombination]
    complete := by
      cases result.isRejected <;> simp }

lemma storable_failed (hstat : session.status = .processing) (hcall : callOk config call session)
    (hatt : session.processingAttempts.getD 0 < maxProcessingAttempts)
    (hretry : retryFrom + retryMs (session.processingAttempts.getD 0 + 1) < endOfTime) :
    Storable c u (failedSession config session gitCommand retryFrom call) := by
  simp only [callOk, Bool.and_eq_true, decide_eq_true_eq] at hcall
  have hprog := h.progress
  refine storable_progress h ?_
  exact { hprog with
    updatedAt := updated_of_stampOk hcall.1
    expiresAt := isIsoTimestamp_toISOString hcall.2
    ordered := ordered_of_stampOk hcall.1
    resultCombination := by simp [isSessionResultCombination, hstat]
    result := by simp
    processingAttempts := by
      intro n hn
      cases hn
      exact hatt
    retryAt := by
      intro text htext
      cases htext
      exact isIsoTimestamp_toISOString hretry
    retryCombination := by simp [isRetryCombination, hstat] }

lemma storable_finalized {pushed : Pushed} (hstat : session.status = .opened)
    (hresult : pushed.result rt session.manifest = result)
    (hok : finalizeOk call (some pushed) session) : Storable c u { session with
      result := if result.isRejected then none else some result
      status := if result.isRejected then .opened else .completed
      updatedAt := toISOString call.updatedAt } := by
  simp only [finalizeOk, Bool.and_eq_true, all_some] at hok
  obtain ⟨hstamp, hfits⟩ := hok
  have hprog := h.progress
  have hbal := retry_balanced hprog (Or.inl hstat)
  refine storable_progress h ?_
  cases hrej : result.isRejected with
  | true =>
    exact { hprog with
      updatedAt := updated_of_stampOk hstamp
      ordered := ordered_of_stampOk hstamp
      resultCombination := by simp [isSessionResultCombination]
      result := by simp
      retryCombination := by simp [isRetryCombination, hbal]
      complete := by simp }
  | false =>
    obtain ⟨⟨hpush, hcode⟩, hretry⟩ : (pushedOk session.manifest pushed = true ∧
        session.processingErrorCode.join.isNone = true) ∧ session.retryAt.join.isNone = true := by
      subst hresult
      cases pushed with
      | rejected code message => cases hrej
      | noop | merged | conflicted => simpa using hfits
    have hres : isPushResult result = true := hresult ▸ isPushResult_result h hpush
    exact { hprog with
      updatedAt := updated_of_stampOk hstamp
      ordered := ordered_of_stampOk hstamp
      resultCombination := by simp [isSessionResultCombination, hrej]
      result := by
        intro stored hsto
        obtain rfl : result = stored := by simpa using hsto
        exact hres
      retryCombination := by simp [isRetryCombination, hcode, hretry]
      complete := by simp }

lemma storable_aborted (hstamp : stampOk session now) : Storable c u { session with
      status := .aborted
      result := none
      processingErrorCode := some none
      retryAt := some none
      updatedAt := toISOString now } := by
  have hprog := h.progress
  refine storable_progress h ?_
  exact { hprog with
    updatedAt := updated_of_stampOk hstamp
    ordered := ordered_of_stampOk hstamp
    resultCombination := by simp [isSessionResultCombination]
    result := by simp
    retryAt := by simp
    retryCombination := by simp [isRetryCombination]
    complete := by simp }

lemma storable_reopened {retry : Nat}
    (hstamp : stampOk session now) (hretry : retry < endOfTime) : Storable c u { session with
      status := .opened
      result := none
      processingAttempts := some 0
      processingErrorCode := some (some .serverGitError)
      retryAt := some (some (toISOString retry))
      updatedAt := toISOString now } := by
  have hprog := h.progress
  refine storable_progress h ?_
  exact { hprog with
    updatedAt := updated_of_stampOk hstamp
    ordered := ordered_of_stampOk hstamp
    resultCombination := by simp [isSessionResultCombination]
    result := by simp
    processingAttempts := by simp
    retryAt := by
      intro text htext
      cases htext
      exact isIsoTimestamp_toISOString hretry
    retryCombination := by simp [isRetryCombination]
    complete := by simp }

lemma storable_repaired {actual : Nat} (hact : actual ≤ maxStoredBytes) :
    Storable c u { session with storedBytes := some actual } := by
  refine ⟨{ h.identity with }, ?_, { h.progress with }⟩
  refine { h.received with storedBytes := ?_ }
  intro n hn
  cases hn
  exact hact

end

lemma length_le_of_indexes {receipts : List ChunkReceipt} {chunkCount : Nat}
    (hnodup : (receipts.map (·.index)).Nodup)
    (hlt : ∀ receipt ∈ receipts, receipt.index < chunkCount) : receipts.length ≤ chunkCount := by
  have hsub : receipts.map (·.index) ⊆ List.range chunkCount := by
    intro index hindex
    obtain ⟨receipt, hrcp, rfl⟩ := mem_map.mp hindex
    exact mem_range.mpr (hlt receipt hrcp)
  have hle := (subperm_of_subset hnodup hsub).length_le
  rwa [length_map, length_range] at hle

/-- A new receipt at a free index leaves the receipts storable. -/
lemma receiptsStorable_add (h : Storable c u session) {receipt : ChunkReceipt}
    (hrcp : receipt.Storable session.chunkCount)
    (hfree : ∀ other ∈ session.receipts, other.index ≠ receipt.index)
    (htotal : session.totalBytes + receipt.bytes ≤ maxByteCount)
    (hmeas : measured ≤ maxStoredBytes) : ReceiptsStorable { session with
      storedBytes := some measured
      receipts := sortBy (compareOn ChunkReceipt.index) (session.receipts ++ [receipt])
      totalBytes := session.totalBytes + receipt.bytes } := by
  have hrcv := h.received
  have hperm : (sortBy (compareOn ChunkReceipt.index) (session.receipts ++ [receipt])).Perm
      (receipt :: session.receipts) :=
    (sortBy_perm _ _).trans perm_append_comm
  have hrcps : ∀ other ∈ receipt :: session.receipts, other.Storable session.chunkCount :=
    forall_mem_cons.mpr ⟨hrcp, hrcv.receipts⟩
  have hind : ((receipt :: session.receipts).map (·.index)).Nodup := by
    rw [map_cons, nodup_cons]
    refine ⟨?_, hrcv.indexes⟩
    intro hmem
    obtain ⟨other, hother, heq⟩ := mem_map.mp hmem
    exact hfree other hother heq
  have hbytes : receiptBytes (receipt :: session.receipts) = receipt.bytes + receiptBytes session.receipts := rfl
  exact {
    receipts := fun other hother => hrcps other (hperm.mem_iff.mp hother)
    indexes := ((hperm.map _).nodup_iff).mpr hind
    receiptCount := by
      refine hperm.length_eq.le.trans ?_
      exact length_le_of_indexes hind fun other hother => (hrcps other hother).index.1
    totalBytes := by
      refine ⟨?_, htotal⟩
      rw [receiptBytes, (hperm.map _).sum_eq]
      change receiptBytes (receipt :: session.receipts) = _
      rw [hbytes, hrcv.totalBytes.1, add_comm]
    storedBytes := by
      intro n hn
      cases hn
      exact hmeas }

lemma storable_chunk (h : Storable c u session) (hstat : session.status = .opened)
    (receipt : ChunkReceipt) (hrcp : receipt.Storable session.chunkCount)
    (hfree : ∀ other ∈ session.receipts, other.index ≠ receipt.index)
    (htotal : session.totalBytes + receipt.bytes ≤ maxByteCount)
    (hmeas : measured ≤ maxStoredBytes) (hcall : callOk config call session) : Storable c u { session with
      storedBytes := some measured
      receipts := sortBy (compareOn ChunkReceipt.index) (session.receipts ++ [receipt])
      totalBytes := session.totalBytes + receipt.bytes
      updatedAt := toISOString call.updatedAt
      expiresAt := toISOString (expiry config call.expiresFrom) } := by
  simp only [callOk, Bool.and_eq_true, decide_eq_true_eq] at hcall
  refine ⟨{ h.identity with }, { receiptsStorable_add h hrcp hfree htotal hmeas with }, ?_⟩
  exact { h.progress with
    updatedAt := updated_of_stampOk hcall.1
    expiresAt := isIsoTimestamp_toISOString hcall.2
    ordered := ordered_of_stampOk hcall.1
    complete := by simp [hstat] }

end Writers

lemma storable_newSession {call : CreateCall}
    (hreq : parseChunkPushCreateRequest rt.collation rt.normalization call.body = .ok request)
    (hids : request.vaultId = auth.vaultId ∧ request.deviceId = auth.deviceId)
    (hcr : call.createdAt < endOfTime) (hexp : expiry config call.expiresFrom < endOfTime)
    (hmeas : call.measured ≤ maxStoredBytes) :
    Storable rt.collation rt.normalization (newSession rt config auth call request) := by
  obtain ⟨hatt, hplan, hcount⟩ := parseChunkPushCreateRequest_eq_ok hreq
  have hiso := isIsoTimestamp_toISOString hcr
  refine ⟨?_, ?_, ?_⟩
  · exact {
      transferId := isTransferId_newId call.idAt call.random
      vaultId := auth.vaultId_bounded
      deviceId := auth.deviceId_bounded
      attemptId := hatt
      requestSha256 := rt.isSha256_requestSha256 request
      planSha256 := hplan
      manifest := parseDevicePushManifest_manifest hreq (rt.isSha256_sha256Hex [])
      manifestIds := ⟨hids.1, hids.2, rfl⟩
      chunkCount := hcount.trans (by decide)
      createdAt := hiso }
  · exact {
      receipts := by simp [newSession]
      indexes := by simp [newSession]
      receiptCount := zero_le _
      totalBytes := ⟨rfl, zero_le _⟩
      storedBytes := by
        intro n hn
        cases hn
        exact hmeas }
  · exact {
      updatedAt := hiso
      expiresAt := isIsoTimestamp_toISOString hexp
      ordered := le_rfl
      resultCombination := rfl
      result := by simp [newSession]
      processingAttempts := by
        intro n hn
        cases hn
        exact zero_le _
      retryAt := by simp [newSession]
      retryCombination := rfl
      complete := by simp [newSession] }

lemma checkCreate_eq_ok {call : CreateCall} (h : checkCreate rt config auth call = .ok request) :
    parseChunkPushCreateRequest rt.collation rt.normalization call.body = .ok request ∧
      request.vaultId = auth.vaultId ∧ request.deviceId = auth.deviceId := by
  unfold checkCreate at h
  split at h
  · cases h
  rename_i parsed hprs
  obtain ⟨-, -, h⟩ := bind_eq_ok.mp h
  split at h
  · cases h
  rename_i hids
  split at h
  · cases h
  cases h
  rw [not_or, not_not, not_not] at hids
  exact ⟨hprs, hids⟩

lemma admitPush_writes {call : CreateCall} (h : admitPush rt config auth disk call request = .ok (some session)) :
    session = newSession rt config auth call request := by
  unfold admitPush at h
  dsimp only at h
  split at h
  · split at h <;> cases h
  split at h
  · cases h
  split at h
  · cases h
  exact (some.inj (Except.ok.inj h)).symm

lemma kept_createPush (h : Kept rt disk) (auth : AuthenticatedDevice) {call : CreateCall}
    (hmeets : meets rt config disk (.createPush auth call)) : Kept rt (createPush rt config auth disk call) := by
  simp only [meets, Bool.and_eq_true, decide_eq_true_eq] at hmeets
  obtain ⟨⟨hcr, hexp⟩, hmeas⟩ := hmeets
  unfold createPush
  split
  · exact h
  rename_i request hreq
  obtain ⟨hprs, hids⟩ := checkCreate_eq_ok hreq
  refine (h.pruneExpired call.pruneAt).settle ?_
  intro session hsess
  rw [admitPush_writes hsess]
  exact storable_newSession hprs hids hcr hexp hmeas

lemma kept_getPush (h : Kept rt disk) (hmeets : meets rt config disk (.getPush auth transferId call)) :
    Kept rt (settle disk transferId (getPush rt config auth disk transferId call)) := by
  refine h.settle ?_
  intro session hsess
  obtain ⟨-, -, hsess⟩ := bind_eq_ok.mp hsess
  obtain ⟨current, hcur, hsess⟩ := bind_eq_ok.mp hsess
  have hread := requireSession_eq_ok hcur
  have hcall : callOk config call current = true := by simpa [meets, hread] using hmeets
  split at hsess
  · rename_i hopen
    cases hsess
    exact storable_processing (h.read hread).2.1 (Or.inl hopen.1) hopen.2.2 hcall
  · cases hsess

lemma storeChunk_writes {written : PushSession}
    (h : storeChunk config session call chunk files = .ok (some written)) :
    files.measured ≤ config.maxTransferBytes ∧ written = { session with
      storedBytes := some files.measured
      receipts := sortBy (compareOn ChunkReceipt.index)
        (session.receipts ++ [⟨chunk.index.toNat, chunk.data.length, chunk.digest⟩])
      totalBytes := session.totalBytes + chunk.data.length
      updatedAt := toISOString call.updatedAt
      expiresAt := toISOString (expiry config call.expiresFrom) } := by
  unfold storeChunk at h
  split at h
  · cases h
  split at h
  · cases h
  split at h
  · cases h
  split at h
  · cases h
  split at h
  · cases h
  rename_i hlim
  rw [not_or, not_lt, not_lt] at hlim
  exact ⟨hlim.1, (some.inj (Except.ok.inj h)).symm⟩

section
variable (h : Kept rt disk)
include h

lemma kept_putChunk (hmeets : meets rt config disk (.putChunk auth transferId call chunk files)) :
    Kept rt (settle disk transferId (putChunk rt config auth disk transferId call chunk files)) := by
  refine h.settle ?_
  intro written hwr
  obtain ⟨-, -, hwr⟩ := bind_eq_ok.mp hwr
  obtain ⟨session, hsess, hwr⟩ := bind_eq_ok.mp hwr
  have hread := requireSession_eq_ok hsess
  have hcall : callOk config call session = true := by simpa [meets, hread] using hmeets
  obtain ⟨-, hsto, -⟩ := h.read hread
  split at hwr
  · cases hwr
  rename_i hopen
  split at hwr
  · cases hwr
  rename_i hindex
  split at hwr
  · cases hwr
  rename_i hlen
  split at hwr
  · cases hwr
  rename_i hdig
  split at hwr
  · split at hwr <;> cases hwr
  rename_i hfree
  split at hwr
  · cases hwr
  rename_i htotal
  obtain ⟨hmeas, rfl⟩ := storeChunk_writes hwr
  have hchun := config.chunk_range.2
  have hbytes := config.bytes_range.2
  have hcount := hsto.identity.chunkCount
  have hmaxB : maxByteCount = 8589934592 := rfl
  have hmaxS : maxStoredBytes = 17179869184 := rfl
  refine storable_chunk hsto (not_not.mp hopen)
    ⟨chunk.index.toNat, chunk.data.length, chunk.digest⟩ ?_ ?_ ?_ ?_ hcall
  · exact {
      index := by
        constructor
        · change chunk.index.toNat < session.chunkCount
          omega
        · change chunk.index.toNat ≤ maxSafeInteger
          omega
      bytes := by
        change chunk.data.length ≤ maxByteCount
        omega
      sha256 := by
        rw [← not_not.mp hdig]
        exact rt.isSha256_sha256Hex chunk.data }
  · intro other hother heq
    have hnone := List.find?_eq_none.mp hfree other hother
    simp only [decide_eq_true_eq] at hnone
    exact hnone heq
  · change session.totalBytes + chunk.data.length ≤ maxByteCount
    omega
  · omega

lemma kept_finalizePush {pushed : Option Pushed}
    (hmeets : meets rt config disk (.finalizePush auth transferId call pushed)) :
    Kept rt (settle disk transferId (finalizePush rt config auth disk transferId call pushed)) := by
  refine h.settle ?_
  intro written hwr
  obtain ⟨-, -, hwr⟩ := bind_eq_ok.mp hwr
  obtain ⟨session, hsess, hwr⟩ := bind_eq_ok.mp hwr
  have hread := requireSession_eq_ok hsess
  have hok : finalizeOk call pushed session = true := by simpa [meets, hread] using hmeets
  obtain ⟨-, hsto, -⟩ := h.read hread
  split at hwr
  · split at hwr <;> cases hwr
  · split at hwr <;> cases hwr
  · split at hwr <;> cases hwr
  · cases hwr
  rename_i hstat
  split at hwr
  · cases hwr
  cases pushed with
  | none => cases hwr
  | some pushed =>
    cases hwr
    exact storable_finalized hsto hstat rfl hok

lemma kept_beginFinalizePush (hmeets : meets rt config disk (.beginFinalizePush auth transferId call)) :
    Kept rt (settle disk transferId (beginFinalizePush rt config auth disk transferId call)) := by
  refine h.settle ?_
  intro written hwr
  obtain ⟨-, -, hwr⟩ := bind_eq_ok.mp hwr
  obtain ⟨session, hsess, hwr⟩ := bind_eq_ok.mp hwr
  have hread := requireSession_eq_ok hsess
  have hcall : callOk config call session = true := by simpa [meets, hread] using hmeets
  obtain ⟨-, hsto, -⟩ := h.read hread
  cases hstat : session.status with
  | completed | rejected | aborted =>
    rw [hstat] at hwr
    cases hwr
  | opened | processing =>
    rw [hstat] at hwr
    dsimp only at hwr
    split at hwr
    · cases hwr
    rename_i hcpl
    cases hwr
    refine storable_processing hsto ?_ (not_not.mp hcpl) hcall
    simp [hstat]

lemma kept_processPendingPush {attempt : Attempt} (hmeets : meets rt config disk
      (.processPendingPush auth transferId call attempt retryFrom)) : Kept rt (settle disk transferId
      (processPendingPush rt config auth disk transferId call attempt retryFrom)) := by
  refine h.settle ?_
  intro written hwr
  have hok : ∀ latest, readSession rt config disk transferId = some latest →
      attemptOk config call retryFrom attempt latest = true :=
    fun latest hread => by simpa [meets, hread] using hmeets
  unfold processPendingPush at hwr
  split at hwr
  · cases hwr
  · rename_i pushed heff
    obtain ⟨latest, hlat, hwr⟩ := bind_eq_ok.mp hwr
    have hread := requireSession_eq_ok hlat
    have hok := hok latest hread
    simp only [attemptOk, heff, Bool.and_eq_true] at hok
    split at hwr
    · cases hwr
    cases hwr
    have hsto := (h.read hread).2.1
    exact storable_settled hsto (isPushResult_result hsto hok.2) hok.1
  · rename_i error heff
    obtain ⟨latest, hlat, hwr⟩ := bind_eq_ok.mp hwr
    have hread := requireSession_eq_ok hlat
    have hok := hok latest hread
    simp only [attemptOk, heff, Bool.and_eq_true] at hok
    split at hwr
    · cases hwr
    cases hwr
    exact storable_settled (h.read hread).2.1 hok.2 hok.1
  · rename_i gitCommand heff
    obtain ⟨latest, hlat, hwr⟩ := bind_eq_ok.mp hwr
    have hread := requireSession_eq_ok hlat
    have hok := hok latest hread
    simp only [attemptOk, heff, Bool.and_eq_true, decide_eq_true_eq] at hok
    split at hwr
    · cases hwr
    rename_i hstat
    cases hwr
    exact storable_failed (h.read hread).2.1 (not_not.mp hstat) hok.1.1 hok.1.2 hok.2

lemma kept_drain {vaultId : String} {deviceId : Option String}
    (hmeets : meets rt config disk (.drain transferId vaultId deviceId updatedAt)) :
    Kept rt (writeIfAny disk (drain rt config disk transferId vaultId deviceId updatedAt)) := by
  refine h.writeIfAny ?_
  intro written hwr
  unfold drain at hwr
  split at hwr
  · cases hwr
  rename_i current hread
  have hstamp : stampOk current updatedAt = true := by simpa [meets, hread] using hmeets
  split at hwr
  · cases hwr
  obtain ⟨-, ⟨⟩⟩ := ite_none_right_eq_some.mp hwr
  exact storable_aborted (h.read hread).2.1 hstamp

lemma kept_repairAccounting (transferId : String) (actual : Nat) :
    Kept rt (writeIfAny disk (repairAccounting rt config disk transferId actual)) := by
  refine h.writeIfAny ?_
  intro written hwr
  unfold repairAccounting at hwr
  split at hwr
  · cases hwr
  rename_i session hread
  split at hwr
  · cases hwr
  rename_i hlim
  rw [not_or, not_lt, not_lt] at hlim
  obtain ⟨-, ⟨⟩⟩ := ite_none_right_eq_some.mp hwr
  exact storable_repaired (h.read hread).2.1 (hlim.2.trans config.storage_range.2)

lemma kept_reopen {readAt retryAt : Nat} {blocked : Bool}
    (hmeets : meets rt config disk (.reopen transferId readAt blocked retryAt updatedAt)) :
    Kept rt (writeIfAny disk (reopen rt config disk transferId readAt blocked retryAt updatedAt)) := by
  refine h.writeIfAny ?_
  intro written hwr
  unfold reopen at hwr
  split at hwr
  · cases hwr
  rename_i session hread
  have hok : stampOk session updatedAt = true ∧ retryAt < endOfTime := by
    simpa [meets, hread] using hmeets
  obtain ⟨-, ⟨⟩⟩ := ite_none_left_eq_some.mp hwr
  exact storable_reopened (h.read hread).2.1 hok.1 hok.2

lemma kept_step {label : Label} (hmeets : meets rt config disk label) : Kept rt (step rt config disk label) := by
  cases label with
  | createPush auth call => exact kept_createPush h auth hmeets
  | getPush auth transferId call => exact kept_getPush h hmeets
  | putChunk auth transferId call chunk files => exact kept_putChunk h hmeets
  | finalizePush auth transferId call pushed => exact kept_finalizePush h hmeets
  | beginFinalizePush auth transferId call => exact kept_beginFinalizePush h hmeets
  | processPendingPush auth transferId call attempt retryFrom =>
    exact kept_processPendingPush h hmeets
  | drain transferId vaultId deviceId updatedAt => exact kept_drain h hmeets
  | repairAccounting transferId actual => exact kept_repairAccounting h transferId actual
  | reopen transferId readAt blocked retryAt updatedAt => exact kept_reopen h hmeets
  | remove transferId => exact h.delete transferId

lemma kept_run {labels : List Label}
    (hmeets : allMeet rt config disk labels) : Kept rt (run rt config disk labels) := by
  induction labels generalizing disk with
  | nil => exact h
  | cons label labels ih =>
    rw [allMeet, Bool.and_eq_true] at hmeets
    exact ih (kept_step h hmeets.1) hmeets.2

end

/-- Every record that a run within the bounds has on disk is accepted, and read back as it was. -/
theorem written_records_are_readable (rt : Runtime) (config : ServerConfig) (labels : List Label)
    (hmeets : allMeet rt config [] labels = true) :
    ∀ entry ∈ run rt config [] labels, ∃ session : PushSession, entry.2 = session.toJson ∧
      parsePersistedPushSession rt.collation rt.normalization entry.2 entry.1 = some session := by
  intro entry hentry
  have hkept : Kept rt (run rt config [] labels) := kept_run (by simp [Kept]) hmeets
  obtain ⟨session, hid, hrec, hsto⟩ := hkept entry hentry
  refine ⟨session, hrec, ?_⟩
  rw [hrec, ← hid]
  exact parsePersistedPushSession_toJson hsto

def sampleDigest : String := "e3b0c44298fc1c149afbf4c8996fb92427ae41e4649b934ca495991b7852b855"

def sampleRuntime : Runtime where
  collation := codePointCollation
  normalization := asciiNormalization
  sha256Hex _ := sampleDigest
  isSha256_sha256Hex _ := by decide +kernel
  requestSha256 _ := "0408fbf2a436e18636c32ee61d1cc791c6dfb2c9627f275af6aa9816aa8f6b51"
  isSha256_requestSha256 _ := by decide +kernel
  intentSha256 _ _ := sampleDigest
  isSha256_intentSha256 _ _ := by decide +kernel
  proposalSha256 _ := sampleDigest
  isSha256_proposalSha256 _ := by decide +kernel

def sampleConfig : ServerConfig where
  transferChunkBytes := 16777216
  maxTransferBytes := 2147483648
  maxTransferChunks := 4096
  maxTransferStorageBytes := 4294967296
  transferTtlSeconds := 86400
  chunk_range := by decide
  bytes_range := by decide
  chunks_range := by decide
  storage_range := by decide
  ttl_range := by decide

def sampleDevice : AuthenticatedDevice where
  vaultId := "vlt_01"
  deviceId := "dev_01"
  vaultId_bounded := by decide +kernel
  deviceId_bounded := by decide +kernel

def sampleNow : Nat := 1783000000000

/-- A transfer without chunks: its commit needs no objects that the server lacks. -/
def sampleBody : Json :=
  record [("api_version", some (.string apiVersion)), ("vault_id", some (.string "vlt_01")),
    ("device_id", some (.string "dev_01")), ("expected_device_ref", some .null),
    ("target_commit", some (.string "4b825dc642cb6eb9a060e54bf8d69288fbee4904")),
    ("client_known_main", some .null), ("attempt_id", some (.string "attempt-01")),
    ("chunk_count", some (.number (some 0))), ("plan_sha256", some (.string sampleDigest))]

def sampleGate : Availability := ⟨false, false, false⟩

def sampleCreate : CreateCall where
  gate := sampleGate
  body := sampleBody
  covered _ := false
  pruneAt := sampleNow
  budgetAt := sampleNow
  idAt := sampleNow
  random := List.replicate 10 0
  createdAt := sampleNow
  expiresFrom := sampleNow
  initialized := true
  measured := 24576

def sampleTransferId : String := newId "trn" sampleNow (List.replicate 10 0)

def sampleCall (now : Nat) : Call := ⟨sampleGate, true, now, now, now⟩

/-- A transfer is created, its finalization begins, and so many attempts fail in Git. -/
def failingRun (attempts : Nat) : List Label :=
  .createPush sampleDevice sampleCreate ::
    .beginFinalizePush sampleDevice sampleTransferId (sampleCall sampleNow) ::
      (List.range attempts).map fun attempt =>
        let now := sampleNow + attempt * 60000
        .processPendingPush sampleDevice sampleTransferId (sampleCall now) (.failed true) now

/-- Creating the transfer and beginning its finalization stay within bounds. -/
lemma failingRun_zero : allMeet sampleRuntime sampleConfig [] (failingRun 0) ∧
    (readSession sampleRuntime sampleConfig (run sampleRuntime sampleConfig [] (failingRun 0))
      sampleTransferId).any (fun session => session.status = .processing &&
        (session.vaultId = sampleDevice.vaultId && session.deviceId = sampleDevice.deviceId) &&
        session.processingAttempts = some 0 && session.createdAt = toISOString sampleNow) := by
  decide +kernel

theorem written_records_are_readable_sample : allMeet sampleRuntime sampleConfig [] (failingRun 0) = true ∧
    ∀ entry ∈ run sampleRuntime sampleConfig [] (failingRun 0), ∃ session : PushSession,
      entry.2 = session.toJson ∧ parsePersistedPushSession sampleRuntime.collation
        sampleRuntime.normalization entry.2 entry.1 = some session :=
  ⟨failingRun_zero.1, written_records_are_readable sampleRuntime sampleConfig (failingRun 0) failingRun_zero.1⟩

lemma readSession_writeSession (h : Storable rt.collation rt.normalization session)
    (hver : verifySessionStructure config session) :
    readSession rt config (writeSession disk session) session.transferId = some session := by
  rw [readSession, writeSession, valueAt_set_self, bind_some, parsePersistedPushSession_toJson h]
  simp [hver]

/-- A failed attempt on a processing session of the device writes the failed session. -/
lemma step_failed (hread : readSession rt config disk transferId = some session)
    (hstat : session.status = .processing)
    (hids : session.vaultId = auth.vaultId ∧ session.deviceId = auth.deviceId)
    (hid : isRequestTransferId transferId) (husab : call.repositoryUsable) :
    step rt config disk (.processPendingPush auth transferId call (.failed gitCommand) retryFrom)
      = writeSession disk (failedSession config session gitCommand retryFrom call) := by
  simp [step, processPendingPush, Attempt.effective, requireSession, hid, hread, hids, expired,
    hstat, husab, bind, Except.bind, settle]

/-- The state of the sample transfer after so many failed attempts. -/
structure FailedSo (attempts : Nat) (session : PushSession) : Prop where
  transferId : session.transferId = sampleTransferId
  status : session.status = .processing
  ids : session.vaultId = sampleDevice.vaultId ∧ session.deviceId = sampleDevice.deviceId
  processingAttempts : session.processingAttempts.getD 0 = attempts
  createdAt : session.createdAt = toISOString sampleNow
  storable : Storable sampleRuntime.collation sampleRuntime.normalization session
  verified : verifySessionStructure sampleConfig session = true

lemma isRequestTransferId_sample : isRequestTransferId sampleTransferId := by
  decide +kernel

lemma failingRun_succ (n : Nat) : run sampleRuntime sampleConfig [] (failingRun (n + 1))
    = step sampleRuntime sampleConfig (run sampleRuntime sampleConfig [] (failingRun n))
        (.processPendingPush sampleDevice sampleTransferId (sampleCall (sampleNow + n * 60000))
          (.failed true) (sampleNow + n * 60000)) := by
  simp [failingRun, run, foldl_cons, range_succ, map_append, map_cons, map_nil, foldl_append, foldl_nil]

lemma failedSo_zero : ∃ session, FailedSo 0 session ∧
    readSession sampleRuntime sampleConfig (run sampleRuntime sampleConfig [] (failingRun 0))
      sampleTransferId = some session := by
  obtain ⟨hmeets, hread⟩ := failingRun_zero
  obtain ⟨session, hread, hfacts⟩ := (any_eq_true _ _).mp hread
  have hkept : Kept sampleRuntime (run sampleRuntime sampleConfig [] (failingRun 0)) :=
    kept_run (by simp [Kept]) hmeets
  obtain ⟨hid, hsto, hver⟩ := hkept.read hread
  simp only [Bool.and_eq_true, decide_eq_true_eq] at hfacts
  obtain ⟨⟨⟨hstat, hids⟩, hatt⟩, hcr⟩ := hfacts
  exact ⟨session, ⟨hid, hstat, hids, by simp [hatt], hcr, hsto, hver⟩, hread⟩

lemma failedSo_succ {n : Nat} (hn : n < 64) (h : FailedSo n session) :
    FailedSo (n + 1) (failedSession sampleConfig session true (sampleNow + n * 60000)
      (sampleCall (sampleNow + n * 60000))) := by
  have hstart : sampleNow = 1783000000000 := rfl
  have hend : endOfTime = 253402300800000 := rfl
  have hnow : sampleNow + n * 60000 < endOfTime := by omega
  have hretry : ∀ attempts, retryMs attempts ≤ 60000 := fun _ => min_le_left _ _
  have hstamp : stampOk session (sampleNow + n * 60000) = true := by
    refine stampOk_iff.mpr ⟨hnow, ?_⟩
    rw [h.createdAt, dateParse_toISOString (by decide)]
    exact le_add_right _ _
  refine { h with
    processingAttempts := by simp [failedSession, h.processingAttempts]
    storable := ?_ }
  refine storable_failed h.storable h.status ?_ ?_ ?_
  · have hexp : expiry sampleConfig (sampleNow + n * 60000) < endOfTime := by
      change sampleNow + n * 60000 + 86400 * 1000 < endOfTime
      omega
    simp [callOk, sampleCall, hstamp, hexp]
  · rw [h.processingAttempts]
    exact hn
  · have hle := hretry (session.processingAttempts.getD 0 + 1)
    omega

lemma failedSo_of_le (n : Nat) (hn : n ≤ 64) : ∃ session, FailedSo n session ∧
    readSession sampleRuntime sampleConfig (run sampleRuntime sampleConfig [] (failingRun n))
      sampleTransferId = some session := by
  induction n with
  | zero => exact failedSo_zero
  | succ n ih =>
    obtain ⟨session, hfail, hread⟩ := ih (by omega)
    have hnext := failedSo_succ (by omega) hfail
    refine ⟨_, hnext, ?_⟩
    rw [failingRun_succ, step_failed hread hfail.status hfail.ids isRequestTransferId_sample rfl]
    rw [← hnext.transferId]
    exact readSession_writeSession hnext.storable hnext.verified

/-- The record of the sixty-fifth failed attempt is not accepted any more. -/
theorem sixtyFifth_attempt_unreadable :
    ¬ ∀ entry ∈ run sampleRuntime sampleConfig [] (failingRun 65), ∃ session : PushSession,
      entry.2 = session.toJson ∧ parsePersistedPushSession sampleRuntime.collation
        sampleRuntime.normalization entry.2 entry.1 = some session := by
  intro hall
  obtain ⟨session, hfail, hread⟩ := failedSo_of_le 64 le_rfl
  set next := failedSession sampleConfig session true (sampleNow + 64 * 60000)
    (sampleCall (sampleNow + 64 * 60000)) with hnext
  have hrun : run sampleRuntime sampleConfig [] (failingRun 65)
      = writeSession (run sampleRuntime sampleConfig [] (failingRun 64)) next := by
    rw [failingRun_succ, step_failed hread hfail.status hfail.ids isRequestTransferId_sample rfl]
  have hmem : (next.transferId, next.toJson) ∈ run sampleRuntime sampleConfig [] (failingRun 65) := by
    rw [hrun]
    exact mem_set.mpr (Or.inl rfl)
  obtain ⟨parsed, -, hprs⟩ := hall _ hmem
  have hbound := processingAttempts_le_of_parsed hprs 65 (by
    simp [hnext, failedSession, hfail.processingAttempts])
  exact absurd hbound (by decide)

end TransferRuns
