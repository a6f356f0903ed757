import Obts.EnrolmentRuns

/-!
# Repositories of new vaults

The repository of a new vault exists before the metadata knows the vault. A request that fails in
between releases its reservation and leaves the repository, which readiness reports from then on.
Every other repository belongs to a vault, a deletion job or a receipt, or to a request that is
under way.
-/
namespace Enrolment

open List Option Completion State InsertionOrder

/-- The repository of a new vault that a completion has made and not committed. -/
def Completion.held (completion : Completion) : Option String :=
  match completion.stage with
  | .ready _ _ _ _ => completion.awaited
  | _ => none

/-- The metadata knows the vault, or a request that is under way made its repository. -/
def Accounted (s : State) (vaultId : String) : Prop :=
  vaultId ∈ metadataVaultIds s.db ∨ (∃ completion ∈ s.completions, completion.held = some vaultId) ∨
    ∃ creation ∈ s.creations, creation.rootCommit.isSome = true ∧ creation.vaultId = vaultId

/-- Repositories are accounted for, but for those that failed requests have left. -/
structure Known (left : String → Prop) (s : State) : Prop where
  repositories : ∀ vaultId ∈ s.repositories, Accounted s vaultId ∨ left vaultId
  deleted : ∀ completion ∈ s.completions, ∀ vaultId, completion.awaited = some vaultId →
    vaultId ∉ s.db.deletionJobs ∧ vaultId ∉ s.db.deletionReceipts
  creationIds : (s.creations.map Creation.requestId).Nodup

/-- No request for a new vault is under way. -/
def State.isQuiet (s : State) : Bool := s.reservations.isEmpty

/-- The request that makes a vault fails after the vault's repository came to exist: making it
fails half way, the connection is not approved any more, the metadata cannot be written, another
exception ends the request, or the server stops. -/
def Label.Leaves (crypto : Crypto) (s : State) (vaultId : String) : Label → Prop
  | .initializeRepository requestId (.failed left) => left = true ∧ ∃ completion ∈ s.completions,
      completion.requestId = requestId ∧ completion.awaited = some vaultId
  | .initializeVault requestId (.failed left) => left = true ∧ ∃ creation ∈ s.creations,
      creation.requestId = requestId ∧ creation.vaultId = vaultId
  | .commit requestId _ _ persisted => ∃ completion ∈ s.completions,
      completion.requestId = requestId ∧ completion.held = some vaultId ∧
      ¬ (persisted = true ∧ (approvedConnection crypto s.now s.db completion.connectionId
        completion.secret).isSome = true)
  | .abandon requestId => ∃ completion ∈ s.completions,
      completion.requestId = requestId ∧ completion.held = some vaultId
  | .commitVault requestId persisted => persisted = false ∧ ∃ creation ∈ s.creations,
      creation.requestId = requestId ∧ creation.vaultId = vaultId
  | .abandonVault requestId => ∃ creation ∈ s.creations,
      creation.requestId = requestId ∧ creation.rootCommit.isSome = true ∧ creation.vaultId = vaultId
  | .restart => (∃ completion ∈ s.completions, completion.held = some vaultId) ∨
      ∃ creation ∈ s.creations, creation.rootCommit.isSome = true ∧ creation.vaultId = vaultId
  | _ => False

/-- The request that makes the vault fails at some step of the run. -/
def LeftBehind (crypto : Crypto) (vaultId : String) : State → List Label → Prop
  | _, [] => False
  | s, label :: labels => label.Leaves crypto s vaultId ∨
      ∃ s', s.step crypto label = some s' ∧ LeftBehind crypto vaultId s' labels

section Kept
variable {crypto : Crypto} {past : List Enrolled} {left : String → Prop} {s s' : State}
  {completion : Completion} {vaultId deviceToken rootCommit requestId connectionId userId : String}
  {stage : Stage} {db db' : Db} {now : Int}

lemma Completion.awaited_of_held (h : completion.held = some vaultId) : completion.awaited = some vaultId := by
  unfold held at h
  split at h
  · exact h
  · cases h

/-- The rows that account for repositories. -/
structure SameVaults (db db' : Db) : Prop where
  vaults : db'.vaults.map Vault.vaultId = db.vaults.map Vault.vaultId
  deletionJobs : db'.deletionJobs = db.deletionJobs
  deletionReceipts : db'.deletionReceipts = db.deletionReceipts

lemma SameVaults.metadataVaultIds (h : SameVaults db db') : metadataVaultIds db' = metadataVaultIds db := by
  unfold Enrolment.metadataVaultIds
  rw [h.vaults, h.deletionJobs, h.deletionReceipts]

/-- The metadata changes in other ways. -/
lemma Known.sameVaults (h : Known left s) (hdb : SameVaults s.db db) : Known left { s with db } := by
  refine ⟨fun vaultId hmem => ?_, fun completion hmem vaultId hawt => ?_, h.creationIds⟩
  · refine (h.repositories vaultId hmem).imp (fun hacc => ?_) id
    refine hacc.imp (fun hknown => ?_) id
    exact hdb.metadataVaultIds ▸ hknown
  · obtain ⟨hjobs, hrcps⟩ := h.deleted completion hmem vaultId hawt
    exact ⟨hdb.deletionJobs ▸ hjobs, hdb.deletionReceipts ▸ hrcps⟩

lemma sameVaults_approve {approval : Approval}
    (h : approve now connectionId userId approval db = some db') : SameVaults db db' := by
  obtain ⟨_, -, -, -, f, rfl, -⟩ := approve_eq_some h
  exact ⟨rfl, rfl, rfl⟩

lemma sameVaults_deny (h : deny connectionId userId db = some db') : SameVaults db db' := by
  unfold deny at h
  split at h
  · cases h
  split at h
  · cases h
  · cases h
    exact ⟨rfl, rfl, rfl⟩

lemma sameVaults_setUserDisabled {actorUserId targetUserId : String} {disabled : Bool}
    (h : setUserDisabled now actorUserId targetUserId disabled db = some db') : SameVaults db db' := by
  unfold setUserDisabled at h
  split at h
  · split at h
    · cases h
    split at h
    · cases h
    split at h
    · cases h
      exact ⟨rfl, rfl, rfl⟩
    · cases h
      exact ⟨rfl, rfl, rfl⟩
  · cases h

lemma Accounted.advance (hids : (s.completions.map Completion.requestId).Nodup)
    (hmem : completion ∈ s.completions) (hheld : ∀ vaultId, completion.held = some vaultId →
      Completion.held { completion with stage } = some vaultId) (h : Accounted s vaultId) :
    Accounted (s.advance completion.requestId stage) vaultId := by
  rcases h with h | ⟨other, hother, hspec⟩ | h
  · exact .inl h
  · refine .inr (.inl ?_)
    by_cases hid : other.requestId = completion.requestId
    · obtain rfl := inj_on_of_nodup_map hids hother hmem hid
      exact ⟨{ other with stage }, mem_map.mpr ⟨other, hother, if_pos rfl⟩, hheld vaultId hspec⟩
    · exact ⟨other, mem_map.mpr ⟨other, hother, if_neg hid⟩, hspec⟩
  · exact .inr (.inr h)

lemma Accounted.drop (hleft : ∀ completion ∈ s.completions,
    completion.requestId = requestId → completion.held = some vaultId → left vaultId)
    (h : Accounted s vaultId) : Accounted (s.drop requestId) vaultId ∨ left vaultId := by
  rcases h with h | ⟨other, hother, hspec⟩ | h
  · exact .inl (.inl h)
  · by_cases hid : other.requestId = requestId
    · exact .inr (hleft other hother hid hspec)
    · exact .inl (.inr (.inl ⟨other, mem_filter.mpr ⟨hother, decide_eq_true hid⟩, hspec⟩))
  · exact .inl (.inr (.inr h))

/-- A completion goes on that has made no repository yet. -/
lemma Known.advance (h : Known left s) (hsound : Sound crypto past s) (hmem : completion ∈ s.completions)
    (hheld : completion.held = none)
    (hstage : ∀ vaultId, Completion.awaited { completion with stage } = some vaultId →
      s.isNewVaultId vaultId) : Known left (s.advance completion.requestId stage) := by
  refine ⟨fun vaultId hrep => ?_, fun other hother vaultId hawt => ?_, h.creationIds⟩
  · refine (h.repositories vaultId hrep).imp (fun hacc => ?_) id
    refine hacc.advance hsound.requestIds hmem fun vaultId hspec => ?_
    rw [hheld] at hspec
    cases hspec
  rcases mem_advance hsound.requestIds hmem hother with ⟨hold, -⟩ | rfl
  · exact h.deleted other hold vaultId hawt
  have hnew := hstage vaultId hawt
  simp only [isNewVaultId, metadataVaultIds, Bool.and_eq_true, Bool.not_eq_true',
    contains_eq_mem, decide_eq_false_iff_not, mem_append, not_or] at hnew
  exact ⟨hnew.1.1.1.2, hnew.1.1.2⟩

lemma Known.drop (h : Known left s) (hleft : ∀ completion ∈ s.completions,
    completion.requestId = requestId → ∀ vaultId, completion.held = some vaultId → left vaultId) :
    Known left (s.drop requestId) := by
  refine ⟨fun vaultId hmem => ?_, fun completion hmem => h.deleted completion (mem_drop hmem), h.creationIds⟩
  rcases h.repositories vaultId hmem with hacc | hknown
  · exact hacc.drop fun completion hcomp hid => hleft completion hcomp hid vaultId
  · exact .inr hknown

section
variable (h : Known left s)
include h

section
variable (hsound : Sound crypto past s)
include hsound

section
variable (hmem : completion ∈ s.completions) {connection : Connection}
include hmem

/-- The completion is at a stage at which it has made no repository. -/
lemma Known.dropped (hheld : completion.held = none) : Known left (s.drop completion.requestId) := by
  refine h.drop fun other hother hid vaultId hspec => ?_
  rw [inj_on_of_nodup_map hsound.requestIds hother hmem hid, hheld] at hspec
  cases hspec

lemma Known.respond (hheld : completion.held = none) (response : CompleteResponse) :
    Known left (s.respond completion response) := by
  have hdrop := h.dropped hsound hmem hheld
  exact { hdrop with }

lemma Known.plan (hstage : completion.stage = .unused deviceToken)
    (hplan : s.plan crypto completion deviceToken vaultId = some s') : Known left s' := by
  have hheld : completion.held = none := by simp [held, hstage]
  have hdrop := h.dropped hsound hmem hheld
  unfold State.plan at hplan
  split at hplan
  · cases hplan
    exact hdrop
  split at hplan
  · split at hplan
    · cases hplan
      exact hdrop
    obtain ⟨hnew, ⟨⟩⟩ := ite_none_right_eq_some.mp hplan
    refine h.advance hsound hmem hheld fun vaultId' hawt => ?_
    cases hawt
    exact hnew
  · rename_i hsel
    split at hplan
    · cases hplan
      exact hdrop
    cases hplan
    refine h.advance hsound hmem hheld fun vaultId' hawt => ?_
    unfold awaited at hawt
    simp only [if_neg hsel] at hawt
    cases hawt

/-- A repository is made for a completion that holds it from now on. -/
lemma Known.ready (hstage : completion.stage = .reserved deviceToken connection vaultId) (rootCommit : String) :
    Known left { s.advance completion.requestId (.ready deviceToken connection vaultId rootCommit) with
      repositories := s.repositories ++ [vaultId] } := by
  have hprog := hsound.progress completion hmem
  unfold Progress at hprog
  simp only [hstage] at hprog
  obtain ⟨-, hsel, -⟩ := hprog
  have hheld : held { completion with
      stage := .ready deviceToken connection vaultId rootCommit } = some vaultId := by
    unfold held awaited
    simp [hsel]
  have hawt : completion.awaited = some vaultId := by
    unfold awaited
    rw [hstage]
  have hnone : completion.held = none := by simp [held, hstage]
  refine ⟨fun repository hrep => ?_, fun other hother vaultId' hother' => ?_, h.creationIds⟩
  · rcases mem_append.mp hrep with hold | hnew
    · refine (h.repositories repository hold).imp (fun hacc => ?_) id
      refine hacc.advance hsound.requestIds hmem fun vaultId hspec => ?_
      rw [hnone] at hspec
      cases hspec
    · rw [mem_singleton.mp hnew]
      exact .inl (.inr (.inl ⟨_, mem_map.mpr ⟨completion, hmem, if_pos rfl⟩, hheld⟩))
  · rcases mem_advance hsound.requestIds hmem hother with ⟨hold, -⟩ | rfl
    · exact h.deleted other hold vaultId' hother'
    rw [awaited_of_held hheld] at hother'
    cases hother'
    exact h.deleted completion hmem vaultId hawt

/-- A completion that holds the repository of a new vault can be committed. -/
lemma Known.completes (hstage : completion.stage = .ready deviceToken connection vaultId rootCommit)
    (hheld : completion.held.isSome) (happr : (approvedConnection crypto s.now s.db completion.connectionId
      completion.secret).isSome) (mode : OnboardingMode) (deviceId tokenId : String) :
    (completeConnection crypto s.now completion.connectionId completion.secret vaultId rootCommit mode
      deviceToken deviceId tokenId s.db).isSome := by
  have hsel : connection.selection = some .newVault := by
    unfold held awaited at hheld
    simp only [hstage] at hheld
    split at hheld
    · assumption
    · cases hheld
  have hawt : completion.awaited = some vaultId := by
    unfold awaited
    simp [hstage, hsel]
  have hfresh := hsound.unclaimed.vaults completion hmem vaultId hawt
  obtain ⟨hjobs, hrcps⟩ := h.deleted completion hmem vaultId hawt
  have hprog := hsound.progress completion hmem
  unfold Progress at hprog
  simp only [hstage] at hprog
  obtain ⟨-, planned, hplan, hnamed, hplaR, -⟩ := hprog
  obtain ⟨row, hrow⟩ := isSome_iff_exists.mp happr
  obtain ⟨hfound, hguard⟩ := filter_eq_some_iff.mp hrow
  simp only [Bool.and_eq_true, decide_eq_true_eq] at hguard
  obtain ⟨row', hmem', hid, rfl⟩ := authenticatedConnection_eq_some hfound
  obtain ⟨hrefr, -⟩ := refresh_of_approved hguard.1.1
  rw [hrefr] at hfound hguard
  obtain ⟨approved, happM, hspec⟩ := hsound.linked.approved row' hmem' hguard.1.1
  obtain rfl := inj_on_of_nodup_map hsound.linked.approvalIds hplan happM
    (hnamed.trans (hid.symm.trans hspec.1.symm))
  have hname : ∃ displayName, row'.newVaultDisplayName = some displayName := by
    have hmatch := hspec.2.2
    have hplaM := hplaR.2.2
    cases hcase : planned.approval with
    | existingVault target =>
      rw [hcase] at hplaM
      rw [hplaM.1] at hsel
      cases hsel
    | newVault displayName =>
      rw [hcase] at hmatch
      exact ⟨displayName, hmatch.2⟩
  obtain ⟨displayName, hname⟩ := hname
  have hfind : s.db.findVault vaultId = none := by
    rw [Db.findVault, List.find?_eq_none]
    intro vault hvault hid
    exact hfresh (mem_map.mpr ⟨vault, hvault, of_decide_eq_true hid⟩)
  have hrec : s.db.hasDurableDeletionRecord vaultId = false := by
    have hany : (s.db.vaults.any fun vault => vault.vaultId = vaultId && vault.status = .deleting)
        = false := by
      rw [List.any_eq_false]
      intro vault hvault
      rw [Bool.and_eq_true, decide_eq_true_eq]
      exact fun hspec => hfresh (mem_map.mpr ⟨vault, hvault, hspec.1⟩)
    simp [Db.hasDurableDeletionRecord, hany, hjobs, hrcps]
  unfold completeConnection targetVault
  simp [hfound, hguard.1.1, hrec, hfind, hspec.2.1, hname]

lemma Known.commit (hstage : completion.stage = .ready deviceToken connection vaultId rootCommit)
    {persisted : Bool} (hleft : ∀ vaultId, completion.held = some vaultId →
      ¬ (persisted ∧ (approvedConnection crypto s.now s.db completion.connectionId
        completion.secret).isSome) → left vaultId) (deviceId tokenId : String) :
    Known left (s.commit crypto completion deviceToken connection vaultId rootCommit deviceId tokenId
      persisted) := by
  unfold State.commit
  split
  · rename_i db enrolled hcomp
    have hcpl := completeConnection_eq_some hsound.linked.connectionIds hcomp
    have hmono : ∀ id, id ∈ metadataVaultIds s.db ∨ completion.held = some id →
        id ∈ metadataVaultIds db := by
      intro id hid
      have hvs := hcpl.vaults
      unfold metadataVaultIds at hid ⊢
      rw [hcpl.deletions.1, hcpl.deletions.2]
      rcases hid with hid | hid
      · split at hvs
        · rw [hvs.2, map_append]
          simp only [mem_append] at hid ⊢
          tauto
        · rw [hvs]
          exact hid
      · have hawt := awaited_of_held hid
        have hfresh := hsound.unclaimed.vaults completion hmem id hawt
        have htgt : id = vaultId := by
          unfold awaited at hawt
          simp only [hstage] at hawt
          obtain ⟨-, hawt⟩ := ite_none_right_eq_some.mp hawt
          exact (some.inj hawt).symm
        subst htgt
        have hisNew : enrolled.isNewVault = true := by
          rw [hcpl.isNewVault, isNone_iff_eq_none, Db.findVault, List.find?_eq_none]
          intro vault hvault hid
          exact hfresh (mem_map.mpr ⟨vault, hvault, of_decide_eq_true hid⟩)
        rw [if_pos hisNew] at hvs
        rw [hvs.2, map_append, map_singleton, hcpl.target]
        simp
    refine ⟨fun id hid => ?_, fun other hother id hawt => ?_, h.creationIds⟩
    · refine (h.repositories id hid).imp (fun hacc => ?_) (fun hleft => hleft)
      rcases hacc with hknown | ⟨other, hother, hheld⟩ | hcre
      · exact .inl (hmono id (.inl hknown))
      · by_cases hsame : other.requestId = completion.requestId
        · obtain rfl := inj_on_of_nodup_map hsound.requestIds hother hmem hsame
          exact .inl (hmono id (.inr hheld))
        · exact .inr (.inl ⟨other, mem_map.mpr ⟨other, hother, if_neg hsame⟩, hheld⟩)
      · exact .inr (.inr hcre)
    · rcases mem_advance hsound.requestIds hmem hother with ⟨hold, -⟩ | rfl
      · rw [hcpl.deletions.1, hcpl.deletions.2]
        exact h.deleted other hold id hawt
      · cases hawt
  · rename_i hnot
    refine h.drop fun other hother hid vaultId' hheld => ?_
    rw [inj_on_of_nodup_map hsound.requestIds hother hmem hid] at hheld
    refine hleft vaultId' hheld fun hfulf => ?_
    obtain ⟨rfl, happr⟩ := hfulf
    have hsome : completion.held.isSome = true := by
      rw [hheld]
      rfl
    obtain ⟨⟨db, enrolled⟩, hcomp⟩ := isSome_iff_exists.mp
      (h.completes hsound hmem hstage hsome happr completion.request.mode deviceId tokenId)
    exact hnot db enrolled rfl hcomp

end

end

/-- Requests for new vaults go on or end; the metadata may have learnt their vaults. -/
lemma Known.creations (creations : List Creation) (vaults : List Vault)
    (repositories : List String) (hids : (creations.map Creation.requestId).Nodup)
    (hvs : ∀ id ∈ s.db.vaults.map Vault.vaultId, id ∈ vaults.map Vault.vaultId)
    (hcreations : ∀ creation ∈ s.creations, creation.rootCommit.isSome →
      (∃ creation' ∈ creations, creation'.rootCommit.isSome ∧
        creation'.vaultId = creation.vaultId) ∨ creation.vaultId ∈ vaults.map Vault.vaultId ∨
      left creation.vaultId) (hrep : ∀ id ∈ repositories, id ∈ s.repositories ∨
      (∃ creation ∈ creations, creation.rootCommit.isSome ∧ creation.vaultId = id) ∨ left id) :
    Known left { s with db := { s.db with vaults }, creations, repositories } := by
  have hknown : ∀ id, id ∈ metadataVaultIds s.db → id ∈ metadataVaultIds { s.db with vaults } := by
    intro id hid
    unfold metadataVaultIds at hid ⊢
    simp only [mem_append] at hid ⊢
    exact hid.imp (fun hid => hid.imp (hvs id) (fun h => h)) fun h => h
  refine ⟨fun id hid => ?_, h.deleted, hids⟩
  rcases hrep id hid with hold | hnew
  · rcases h.repositories id hold with (hmem | hheld | ⟨creation, hcre, hroot, rfl⟩) | hleft
    · exact .inl (.inl (hknown id hmem))
    · exact .inl (.inr (.inl hheld))
    · rcases hcreations creation hcre hroot with hcre' | hvault | hleft
      · exact .inl (.inr (.inr hcre'))
      · exact .inl (.inl (mem_append_left _ (mem_append_left _ hvault)))
      · exact .inr hleft
    · exact .inr hleft
  · rcases hnew with hnew | hleft
    · exact .inl (.inr (.inr hnew))
    · exact .inr hleft

lemma Known.step (hsound : Sound crypto past s) {label : Label}
    (hleft : ∀ vaultId, label.Leaves crypto s vaultId → left vaultId)
    (hstep : s.step crypto label = some s') : Known left s' := by
  cases label with
  | tick ms =>
    cases hstep
    exact { h with }
  | create | setupInitialAdmin | createUser =>
    obtain ⟨-, ⟨⟩⟩ := ite_none_right_eq_some.mp hstep
    exact h.sameVaults ⟨rfl, rfl, rfl⟩
  | status connectionId =>
    cases hstep
    refine h.sameVaults ?_
    cases connectionId <;> exact ⟨rfl, rfl, rfl⟩
  | expire | login | reauthenticate | logout | revokeDevice =>
    cases hstep
    exact h.sameVaults ⟨rfl, rfl, rfl⟩
  | approve connectionId userId approval =>
    obtain ⟨db, happr, rfl⟩ := map_eq_some_iff.mp hstep
    have hsame := h.sameVaults (sameVaults_approve happr)
    exact { hsame with }
  | deny connectionId userId =>
    obtain ⟨db, hdeny, rfl⟩ := map_eq_some_iff.mp hstep
    exact h.sameVaults (sameVaults_deny hdeny)
  | setUserDisabled actorUserId targetUserId disabled =>
    obtain ⟨db, hset, rfl⟩ := map_eq_some_iff.mp hstep
    exact h.sameVaults (sameVaults_setUserDisabled hset)
  | changeVault vaultId status currentMain =>
    cases hstep
    exact h.sameVaults ⟨map_ite_eq fun _ => rfl, rfl, rfl⟩
  | complete requestId connectionId secret request =>
    obtain ⟨-, ⟨⟩⟩ := ite_none_right_eq_some.mp hstep
    refine ⟨fun id hid => ?_, fun completion hmem vaultId hawt => ?_, h.creationIds⟩
    · refine (h.repositories id hid).imp (fun hacc => ?_) (fun hleft => hleft)
      rcases hacc with hknown | ⟨completion, hmem, hspec⟩ | hcre
      · exact .inl hknown
      · exact .inr (.inl ⟨completion, mem_append_left _ hmem, hspec⟩)
      · exact .inr (.inr hcre)
    · rcases mem_append.mp hmem with hmem | hmem
      · exact h.deleted completion hmem vaultId hawt
      · rw [mem_singleton.mp hmem] at hawt
        cases hawt
  | readSalt requestId =>
    obtain ⟨completion, hmem, rfl, hnext⟩ := withCompletion_eq_some hstep
    obtain ⟨hstage, hnext⟩ := ite_none_right_eq_some.mp hnext
    have hnone : completion.held = none := by simp [held, hstage]
    split at hnext
    · cases hnext
      exact h.advance hsound hmem hnone fun vaultId hawt => by cases hawt
    · cases hnext
      exact h.dropped hsound hmem hnone
  | readExisting requestId =>
    obtain ⟨completion, hmem, rfl, hnext⟩ := withCompletion_eq_some hstep
    split at hnext
    · rename_i deviceToken hstage
      have hnone : completion.held = none := by simp [held, hstage]
      split at hnext
      · cases hnext
        exact h.advance hsound hmem hnone fun vaultId hawt => by cases hawt
      · cases hnext
        exact h.advance hsound hmem hnone fun vaultId hawt => by cases hawt
      · cases hnext
        exact h.dropped hsound hmem hnone
    · cases hnext
  | replay requestId =>
    obtain ⟨completion, hmem, rfl, hnext⟩ := withCompletion_eq_some hstep
    split at hnext
    · rename_i response hstage
      have hnone : completion.held = none := by simp [held, hstage]
      split at hnext
      · split at hnext
        · cases hnext
          exact h.respond hsound hmem hnone response
        · cases hnext
          exact h.dropped hsound hmem hnone
      · cases hnext
        exact h.dropped hsound hmem hnone
    · cases hnext
  | plan requestId vaultId =>
    obtain ⟨completion, hmem, rfl, hnext⟩ := withCompletion_eq_some hstep
    split at hnext
    · rename_i deviceToken hstage
      exact h.plan hsound hmem hstage hnext
    · cases hnext
  | initializeRepository requestId initialization =>
    obtain ⟨completion, hmem, rfl, hnext⟩ := withCompletion_eq_some hstep
    split at hnext
    · rename_i deviceToken connection vaultId hstage
      cases initialization with
      | initialized rootCommit =>
        cases hnext
        exact h.ready hsound hmem hstage rootCommit
      | failed isLeft =>
        cases hnext
        have hnone : completion.held = none := by simp [held, hstage]
        have hdrop := h.dropped hsound hmem hnone
        refine { hdrop with repositories := fun id hid => ?_ }
        cases isLeft with
        | false => exact hdrop.repositories id hid
        | true =>
          rcases mem_append.mp hid with hid | hid
          · exact hdrop.repositories id hid
          rw [mem_singleton.mp hid]
          refine .inr (hleft vaultId ⟨rfl, completion, hmem, rfl, ?_⟩)
          unfold awaited
          rw [hstage]
    · cases hnext
  | commit requestId deviceId tokenId persisted =>
    obtain ⟨completion, hmem, rfl, hnext⟩ := withCompletion_eq_some hstep
    split at hnext
    · rename_i deviceToken connection vaultId rootCommit hstage
      split at hnext
      · cases hnext
        exact h.commit hsound hmem hstage
          (fun id hheld hnot => hleft id ⟨completion, hmem, rfl, hheld, hnot⟩) deviceId tokenId
      · cases hnext
    · cases hnext
  | answer requestId =>
    obtain ⟨completion, hmem, rfl, hnext⟩ := withCompletion_eq_some hstep
    split at hnext
    · rename_i deviceToken connection vaultId deviceId tokenId hstage
      have hnone : completion.held = none := by simp [held, hstage]
      split at hnext
      · rename_i response _
        cases hnext
        exact h.respond hsound hmem hnone response
      · cases hnext
        exact h.dropped hsound hmem hnone
    · cases hnext
  | abandon requestId =>
    obtain ⟨completion, hmem, rfl, hnext⟩ := withCompletion_eq_some hstep
    cases hnext
    exact h.drop fun other hother hid id hheld => hleft id ⟨other, hother, hid, hheld⟩
  | createVault requestId userId displayName vaultId =>
    obtain ⟨hfresh, ⟨⟩⟩ := ite_none_right_eq_some.mp hstep
    refine h.creations _ s.db.vaults s.repositories ?_ (fun _ hid => hid) (fun creation hmem hroot => ?_)
      fun id hid => .inl hid
    · exact nodup_map_concat h.creationIds hfresh.1
    · exact .inl ⟨creation, mem_append_left _ hmem, hroot, rfl⟩
  | initializeVault requestId initialization =>
    obtain ⟨creation, hcre, rfl, hnext⟩ := withCreation_eq_some hstep
    obtain ⟨hnone, hnext⟩ := ite_none_right_eq_some.mp hnext
    cases initialization with
    | initialized rootCommit =>
      cases hnext
      refine h.creations _ s.db.vaults _ ?_ (fun _ hid => hid) (fun other hmem hroot => ?_)
        fun id hid => ?_
      · exact (congrArg List.Nodup (map_ite_eq (by simp))).mpr h.creationIds
      · refine .inl ⟨_, mem_map.mpr ⟨other, hmem, rfl⟩, ?_⟩
        split
        · exact ⟨rfl, rfl⟩
        · exact ⟨hroot, rfl⟩
      · rcases mem_append.mp hid with hold | hnew
        · exact .inl hold
        · rw [mem_singleton.mp hnew]
          refine .inr (.inl ⟨_, mem_map.mpr ⟨creation, hcre, if_pos rfl⟩, rfl, rfl⟩)
    | failed isLeft =>
      cases hnext
      refine h.creations _ s.db.vaults _ ?_ (fun _ hid => hid) (fun other hmem hroot => ?_)
        fun id hid => ?_
      · exact h.creationIds.sublist (filter_sublist.map _)
      · refine .inl ⟨other, mem_filter.mpr ⟨hmem, decide_eq_true fun hid => ?_⟩, hroot, rfl⟩
        rw [inj_on_of_nodup_map h.creationIds hmem hcre hid, hnone] at hroot
        cases hroot
      · cases isLeft with
        | false => exact .inl hid
        | true =>
          rcases mem_append.mp hid with hold | hnew
          · exact .inl hold
          · rw [mem_singleton.mp hnew]
            exact .inr (.inr (hleft creation.vaultId ⟨rfl, creation, hcre, rfl, rfl⟩))
  | commitVault requestId persisted =>
    obtain ⟨creation, hcre, rfl, hnext⟩ := withCreation_eq_some hstep
    obtain ⟨rootCommit, hroot, rfl⟩ := map_eq_some_iff.mp hnext
    cases persisted with
    | true =>
      refine h.creations _ _ s.repositories (h.creationIds.sublist (filter_sublist.map _))
        (fun id hid => ?_) (fun other hmem hother => ?_) fun id hid => .inl hid
      · rw [map_append]
        exact mem_append_left _ hid
      by_cases hid : other.requestId = creation.requestId
      · rw [inj_on_of_nodup_map h.creationIds hmem hcre hid, map_append]
        exact .inr (.inl (mem_append_right _ (mem_singleton.mpr rfl)))
      · exact .inl ⟨other, mem_filter.mpr ⟨hmem, decide_eq_true hid⟩, hother, rfl⟩
    | false =>
      refine h.creations _ s.db.vaults s.repositories
        (h.creationIds.sublist (filter_sublist.map _)) (fun _ hid => hid)
        (fun other hmem hother => ?_) fun id hid => .inl hid
      by_cases hid : other.requestId = creation.requestId
      · exact .inr (.inr (hleft other.vaultId ⟨rfl, other, hmem, hid, rfl⟩))
      · exact .inl ⟨other, mem_filter.mpr ⟨hmem, decide_eq_true hid⟩, hother, rfl⟩
  | abandonVault requestId =>
    obtain ⟨creation, hcre, rfl, hnext⟩ := withCreation_eq_some hstep
    cases hnext
    refine h.creations _ s.db.vaults s.repositories (h.creationIds.sublist (filter_sublist.map _))
      (fun _ hid => hid) (fun other hmem hroot => ?_) fun id hid => .inl hid
    by_cases hid : other.requestId = creation.requestId
    · exact .inr (.inr (hleft other.vaultId ⟨other, hmem, hid, hroot, rfl⟩))
    · exact .inl ⟨other, mem_filter.mpr ⟨hmem, decide_eq_true hid⟩, hroot, rfl⟩
  | restart =>
    cases hstep
    refine ⟨fun id hid => ?_, (fun _ hmem => by cases hmem), nodup_nil⟩
    rcases h.repositories id hid with (hknown | hheld | hcre) | hleft'
    · exact .inl (.inl hknown)
    · exact .inr (hleft id (.inl hheld))
    · exact .inr (hleft id (.inr hcre))
    · exact .inr hleft'

lemma Known.run {labels : List Label} (hsound : Sound crypto past s)
    (hleft : ∀ vaultId, LeftBehind crypto vaultId s labels → left vaultId)
    (hrun : s.run crypto labels = some s') : Known left s' := by
  induction labels generalizing s with
  | nil =>
    cases hrun
    exact h
  | cons label labels ih =>
    obtain ⟨next, hstep, hrun⟩ := bind_eq_some_iff.mp hrun
    exact ih (h.step hsound (fun id hid => hleft id (.inl hid)) hstep) (hsound.step hstep)
      (fun id hid => hleft id (.inr ⟨next, hstep, hid⟩)) hrun

/-- A repository that nobody has reserved is in the metadata, or was left behind. -/
lemma Known.listed (hmem : vaultId ∈ s.listVaultRepositoryIds) :
    vaultId ∈ metadataVaultIds s.db ∨ left vaultId := by
  obtain ⟨hrep, hfree⟩ := mem_filter.mp hmem
  simp only [contains_eq_mem, Bool.not_eq_true', decide_eq_false_iff_not] at hfree
  rcases h.repositories vaultId hrep with (hknown | ⟨completion, hcomp, hheld⟩ | ⟨creation, hcre, -, rfl⟩) | hleft
  · exact .inl hknown
  · refine absurd (mem_append_left _ (mem_filterMap.mpr ⟨completion, hcomp, ?_⟩)) hfree
    exact completion.reservation_of_awaited (awaited_of_held hheld)
  · exact absurd (mem_append_right _ (mem_map_of_mem hcre)) hfree
  · exact .inr hleft

end

end Kept

lemma known_start (left : String → Prop) (accounts : LoginThrottle.Db) (vaults : List Vault)
    (deletionJobs deletionReceipts : List String) (now : Int) :
    Known left (.start accounts vaults deletionJobs deletionReceipts now) :=
  ⟨fun _ hmem => .inl (.inl (mem_append_left _ hmem)), (fun _ hmem => by cases hmem),
    nodup_nil⟩

/-- In every run, readiness misses in the metadata only repositories of vaults whose creation failed
after the repository came to exist; when no creation is under way, all others belong to a vault, a
deletion job or a receipt. -/
theorem no_other_orphan_repository (crypto : Crypto) (accounts : LoginThrottle.Db)
    (vaults : List Vault) (deletionJobs deletionReceipts : List String) (now : Int)
    {labels : List Label} {s : State}
    (hrun : (State.start accounts vaults deletionJobs deletionReceipts now).run crypto labels = some s) :
    (∀ vaultId ∈ s.listVaultRepositoryIds, vaultId ∈ metadataVaultIds s.db ∨
      LeftBehind crypto vaultId (.start accounts vaults deletionJobs deletionReceipts now) labels) ∧
    (s.isQuiet = true → ∀ vaultId ∈ s.repositories, vaultId ∈ metadataVaultIds s.db ∨
      LeftBehind crypto vaultId (.start accounts vaults deletionJobs deletionReceipts now) labels) := by
  have h := (known_start (fun vaultId => LeftBehind crypto vaultId
      (.start accounts vaults deletionJobs deletionReceipts now) labels)
    accounts vaults deletionJobs deletionReceipts now).run
    (sound_start crypto accounts vaults deletionJobs deletionReceipts now) (fun _ hleft => hleft) hrun
  refine ⟨fun vaultId hmem => h.listed hmem, fun hquiet vaultId hmem => h.listed ?_⟩
  have hnone : s.reservations = [] := isEmpty_iff.mp hquiet
  simpa [listVaultRepositoryIds, hnone] using hmem

/-- Two completions of one connection both make a repository, and one of them is refused. -/
def orphaningLabels : List Label := plannedLabels ++
  [.complete "second" "con_1" "secret" ⟨.initializing, none⟩, .readSalt "second",
    .readExisting "second", .plan "second" "vlt_2",
    .initializeRepository "first" (.initialized "root"),
    .initializeRepository "second" (.initialized "root"),
    .commit "first" "dev_1" "tok_1" true, .answer "first", .commit "second" "dev_2" "tok_2" true]

lemma orphaningRun_isSome : ((State.start sampleAccounts [] [] [] 0).run sampleCrypto orphaningLabels).isSome := by
  decide +kernel

/-- The repository of the completion that was refused stays, and readiness reports it. -/
theorem orphan_repository : ¬ ∀ (crypto : Crypto) (accounts : LoginThrottle.Db) (vaults : List Vault)
      (deletionJobs deletionReceipts : List String) (now : Int) (labels : List Label) (s : State),
      (State.start accounts vaults deletionJobs deletionReceipts now).run crypto labels = some s →
      s.isQuiet = true → s.hasUnknownRepository = false ∧
          ∀ vaultId ∈ s.repositories, vaultId ∈ metadataVaultIds s.db := by
  intro h
  have hquiet : (((start sampleAccounts [] [] [] 0).run sampleCrypto orphaningLabels).get
      orphaningRun_isSome).isQuiet = true := by
    decide +kernel
  have hunknown : (((start sampleAccounts [] [] [] 0).run sampleCrypto orphaningLabels).get
      orphaningRun_isSome).hasUnknownRepository = true := by
    decide +kernel
  have hclaim := (h sampleCrypto sampleAccounts [] [] [] 0 orphaningLabels _
    (eq_some_of_isSome orphaningRun_isSome) hquiet).1
  cases hclaim

/-- A vault whose creation is committed. -/
def creationLabels : List Label :=
  [.createVault "req_1" "usr_1" "Notes" "vlt_1", .initializeVault "req_1" (.initialized "root"),
    .commitVault "req_1" true]

lemma creationRun_isSome : ((State.start sampleAccounts [] [] [] 0).run sampleCrypto creationLabels).isSome := by
  decide +kernel

theorem no_other_orphan_repository_sample :
    "vlt_1" ∈ metadataVaultIds (((State.start sampleAccounts [] [] [] 0).run sampleCrypto
        creationLabels).get creationRun_isSome).db ∨
      LeftBehind sampleCrypto "vlt_1" (.start sampleAccounts [] [] [] 0) creationLabels :=
  (no_other_orphan_repository sampleCrypto sampleAccounts [] [] [] 0
    (eq_some_of_isSome creationRun_isSome)).2 (by decide +kernel) "vlt_1" (by decide +kernel)

end Enrolment
