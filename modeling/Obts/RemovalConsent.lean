import Mathlib.Data.Nat.Basic
import Mathlib.Order.Basic
import Obts.DeviceRemoval
import Obts.LabelledRuns

/-!
# Consent and coverage in device removals

Whatever moves while a removal runs, is interrupted or is resumed: the device ref is deleted at merged
work or with the consent that was recorded last, and the device row goes last.
-/
namespace DeviceRemoval

variable {Oid : Type} {answer : Answer} {selected : Selected Oid} {discard : Bool} {job : Job Oid}
  {next : State Oid → State Oid} {change : Job Oid → Job Oid} {confirmation : Option String}
  {oid : Oid}

/-- The grant that was recorded last. -/
def lastRecorded : List (Entry Oid) → Option Bool
  | [] => none
  | .recorded grant :: _ => some grant
  | _ :: log => lastRecorded log

/-- The grant that was asked for last. -/
def lastAsked : List (Entry Oid) → Option Bool
  | [] => none
  | .asked grant :: _ => some grant
  | _ :: log => lastAsked log

/-- The run under way found the device ref absent, or deleted it. -/
def Gone (log : List (Entry Oid)) : Prop :=
  ∃ later entry earlier, log = later ++ entry :: earlier ∧ .driven ∉ later ∧
    (entry = .readAbsent ∨ ∃ oid main staged, entry = .deleted oid main staged)

/-- The run under way erased the transfer sessions after that, but for those that it could not read. -/
def Erased (left : List String) (log : List (Entry Oid)) : Prop :=
  ∃ later unreadable earlier, log = later ++ .erased unreadable :: earlier ∧ .driven ∉ later ∧
    left ⊆ unreadable ∧ Gone earlier

/-- The row was deleted after the rest. -/
def SoundLog : List (Entry Oid) → Prop
  | [] => True
  | .removed left :: log => Erased left log ∧ SoundLog log
  | _ :: log => SoundLog log

lemma SoundLog.removed {log : List (Entry Oid)} (h : SoundLog log) :
    ∀ {later earlier : List (Entry Oid)} {left : List String},
      log = later ++ .removed left :: earlier → Erased left earlier := by
  induction log with
  | nil =>
    intro later earlier left heq
    simp at heq
  | cons entry log ih =>
    intro later earlier left heq
    cases later with
    | nil =>
      obtain ⟨rfl, rfl⟩ := List.cons.inj heq
      exact h.1
    | cons first later =>
      obtain ⟨rfl, rfl⟩ := List.cons.inj heq
      cases entry with
      | removed left => exact ih h.2 rfl
      | _ => exact ih h rfl

namespace State

/-- The device is revoked and nothing of it works any more. -/
def Drained (s : State Oid) : Prop := s.revoked = true ∧ s.working = 0

/-- The journal is this one still, unless a deletion of the vault dropped it. -/
def JobIs (s : State Oid) (job : Job Oid) : Prop :=
  (s.job = none ∨ s.job = some job) ∧ lastRecorded s.log = some job.discardUnmerged

section Order
variable [Preorder Oid] (s : State Oid)

/-- What the deletion of the device ref at this commit would discard is merged, as far as the last
inspection saw it. -/
def Merged (oid : Oid) : Prop :=
  oid ≤ s.main ∧ ∀ commit ∈ stagedTargetCommits s.unread s.sessions, commit ≤ s.main

/-- Deleting the device ref at this commit is merged work or consented to. -/
def Allows (oid : Oid) : Prop := s.Merged oid ∨ lastRecorded s.log = some true

/-- What is known at each stage. -/
def StageSound : Stage Oid → Prop
  | .idle => True
  | .persistGrant _ _ selected => s.job = none ∨ s.job = selected.job
  | .readForIntent discard _ => lastRecorded s.log = some discard
  | .coverForIntent discard _ _ => lastRecorded s.log = some discard
  | .stagedForIntent discard _ _ => lastRecorded s.log = some discard
  | .commitIntent discard _ => lastRecorded s.log = some discard
  | .markPending => s.revoked = true
  | .drainTransfers => s.revoked = true
  | .drainLeases => s.revoked = true
  | .selectForStep _ => s.Drained
  | .readRef _ selected job => s.Drained ∧ s.JobIs job ∧ selected.currentMain ≤ s.main
  | .rebind _ selected current =>
    s.Drained ∧ selected.currentMain ≤ s.main ∧ (current = none → Gone s.log)
  | .cover _ selected job oid =>
    s.Drained ∧ s.JobIs job ∧ selected.currentMain ≤ s.main ∧ job.phase ≠ .cleanup ∧ job.expectedRefOid = some oid
  | .staged _ selected job current =>
    s.Drained ∧ s.JobIs job ∧ selected.currentMain ≤ s.main ∧ (current = none → Gone s.log) ∧
      ∀ oid, current = some oid → job.phase ≠ .cleanup ∧ job.expectedRefOid = some oid ∧
        (oid ≤ s.main ∨ job.discardUnmerged = true)
  | .enterDelete _ =>
    s.Drained ∧ ∀ job, s.job = some job → ∀ oid, job.expectedRefOid = some oid → s.Allows oid
  | .deleteRef _ expected => s.Drained ∧ ∀ oid, expected = some oid → s.Allows oid
  | .rereadRef _ _ => s.Drained
  | .syncRepository => s.Drained ∧ Gone s.log
  | .acceptAbsent => s.Drained ∧ Gone s.log
  | .enterCleanup => s.Drained ∧ Gone s.log
  | .sweepCredentials => s.Drained ∧ Gone s.log
  | .sweepReplay => s.Drained ∧ Gone s.log
  | .eraseTransfers => s.Drained ∧ Gone s.log
  | .sweepBookkeeping => s.Drained ∧ Erased (s.sessions.map Session.transferId) s.log
  | .complete => s.Drained ∧ Erased (s.sessions.map Session.transferId) s.log
  | .recordFailure _ => True

structure Sound (s : State Oid) : Prop where
  log : SoundLog s.log
  job : ∀ job, s.job = some job → lastRecorded s.log = some job.discardUnmerged ∧ s.revoked = true
  device : s.device = false → ∃ left, .removed left ∈ s.log
  stage : s.StageSound s.stage

variable {s s' : State Oid} {stage : Stage Oid}

section
variable (h : Sound s)
include h

lemma Sound.device_cons (entry : Entry Oid) (hgone : s.device = false) : ∃ left, .removed left ∈ entry :: s.log :=
  (h.device hgone).imp fun _ => List.mem_cons_of_mem _

lemma Sound.goTo (hstage : s.StageSound stage) : Sound (s.goTo stage) := by
  refine { h with stage := ?_ }
  cases stage <;> exact hstage

lemma Sound.refuse (failure : Option Failure) : Sound (s.refuse failure) :=
  ⟨h.log, h.job, h.device_cons _, trivial⟩

lemma Sound.supersede : Sound s.supersede :=
  ⟨h.log, h.job, h.device_cons _, trivial⟩

/-- A change of the journal that leaves the grant as it is. -/
lemma Sound.updateJob {next : Job Oid → Stage Oid} (hupd : s.updateJob answer change next = some s')
    (hchan : ∀ job, (change job).discardUnmerged = job.discardUnmerged) (hnext : ∀ job, s.job = some job →
      StageSound { s with job := some (change job) } (next (change job))) : Sound s' := by
  cases answer with
  | done =>
    simp only [updateJob] at hupd
    split at hupd
    · cases hupd
      exact h.supersede
    rename_i job hjob
    cases hupd
    refine ⟨h.log, ?_, h.device, ?_⟩
    · rintro changed hchg
      cases hchg
      rw [hchan]
      exact h.job job hjob
    · have hstage := hnext job hjob
      revert hstage
      cases next (change job) <;> exact id
  | throws =>
    cases hupd
    exact h.goTo trivial
  | unavailable | denied => cases hupd

lemma Sound.sweep (hsweep : s.sweep answer next = some s') (hnext : Sound (next s)) : Sound s' := by
  cases answer with
  | done =>
    simp only [sweep] at hsweep
    split at hsweep
    · split at hsweep
      · cases hsweep
        exact hnext
      · cases hsweep
        exact h.supersede
    · cases hsweep
      exact h.supersede
  | throws | denied =>
    cases hsweep
    exact h.goTo trivial
  | unavailable => cases hsweep

end

/-- A step beside the removal: main only advances, a revoked device that works no longer stays so and
stages nothing more, and a deletion of the vault may drop the journal. -/
structure Beside (s s' : State Oid) : Prop where
  stage : s'.stage = s.stage
  log : s'.log = s.log
  device : s'.device = s.device
  main : s.main ≤ s'.main
  revoked : s.revoked = true → s'.revoked = true
  job : s'.job = none ∨ s'.job = s.job
  working : s.Drained → s'.working = 0
  staged : s.Drained → stagedTargetCommits s'.unread s'.sessions ⊆ stagedTargetCommits s.unread s.sessions
  sessions : s.Drained → s'.sessions.map Session.transferId ⊆ s.sessions.map Session.transferId

namespace Beside

/-- A step that leaves the leases under which the device works, and the sessions, as they are. -/
lemma of_kept (hstage : s'.stage = s.stage) (hlog : s'.log = s.log) (hdev : s'.device = s.device)
    (hmain : s.main ≤ s'.main) (hrvk : s.revoked → s'.revoked)
    (hjob : s'.job = none ∨ s'.job = s.job) (hwork : s'.working = s.working) (hsess : s'.sessions = s.sessions)
    (hunr : s'.unread = s.unread) : Beside s s' where
  stage := hstage
  log := hlog
  device := hdev
  main := hmain
  revoked := hrvk
  job := hjob
  working := fun hdrn => hwork.trans hdrn.2
  staged := fun _ => hsess ▸ hunr ▸ List.Subset.refl _
  sessions := fun _ => hsess ▸ List.Subset.refl _

/-- A step of a device that works. -/
lemma of_working (hworks : 0 < s.working) (hstage : s'.stage = s.stage) (hlog : s'.log = s.log)
    (hdev : s'.device = s.device) (hmain : s.main ≤ s'.main)
    (hrvk : s.revoked → s'.revoked) (hjob : s'.job = none ∨ s'.job = s.job) : Beside s s' := by
  have hidle : ∀ {P : Prop}, s.Drained → P := fun hdrn =>
    absurd hdrn.2 (Nat.pos_iff_ne_zero.mp hworks)
  exact ⟨hstage, hlog, hdev, hmain, hrvk, hjob, hidle, hidle, hidle⟩

section
variable (h : Beside s s')
include h

lemma drained (hdrn : s.Drained) : s'.Drained :=
  ⟨h.revoked hdrn.1, h.working hdrn⟩

lemma jobIs (hjob : s.JobIs job) : s'.JobIs job := by
  refine ⟨?_, h.log ▸ hjob.2⟩
  rcases h.job with hnone | hsame
  · exact .inl hnone
  · exact hjob.1.imp hsame.trans hsame.trans

lemma allows (hdrn : s.Drained) (halw : s.Allows oid) : s'.Allows oid := by
  refine halw.imp ?_ fun hcons => h.log ▸ hcons
  rintro ⟨hoid, hstg⟩
  exact ⟨hoid.trans h.main, fun commit hmem =>
    (hstg commit (h.staged hdrn hmem)).trans h.main⟩

lemma erased (hdrn : s.Drained) (heras : Erased (s.sessions.map Session.transferId) s.log) :
    Erased (s'.sessions.map Session.transferId) s'.log := by
  obtain ⟨later, unreadable, earlier, heq, hlater, hleft, hgone⟩ := heras
  exact ⟨later, unreadable, earlier, h.log.trans heq, hlater, fun _ hmem => hleft (h.sessions hdrn hmem), hgone⟩

lemma stageSound (hstage : s.StageSound stage) : s'.StageSound stage := by
  have hlog : ∀ {P : List (Entry Oid) → Prop}, P s.log → P s'.log := fun hP => h.log.symm ▸ hP
  cases stage with
  | idle | recordFailure => trivial
  | persistGrant confirmation discard selected =>
    rcases h.job with hnone | hsame
    · exact .inl hnone
    · exact hstage.imp hsame.trans hsame.trans
  | readForIntent | coverForIntent | stagedForIntent | commitIntent =>
    exact (congrArg lastRecorded h.log).trans hstage
  | markPending | drainTransfers | drainLeases => exact h.revoked hstage
  | selectForStep | rereadRef => exact h.drained hstage
  | readRef moves selected job =>
    obtain ⟨hdrn, hjob, hmain⟩ := hstage
    exact ⟨h.drained hdrn, h.jobIs hjob, hmain.trans h.main⟩
  | rebind moves selected current =>
    obtain ⟨hdrn, hmain, hgone⟩ := hstage
    exact ⟨h.drained hdrn, hmain.trans h.main, fun hnone => hlog (hgone hnone)⟩
  | cover moves selected job oid =>
    obtain ⟨hdrn, hjob, hmain, hphase⟩ := hstage
    exact ⟨h.drained hdrn, h.jobIs hjob, hmain.trans h.main, hphase⟩
  | staged moves selected job current =>
    obtain ⟨hdrn, hjob, hmain, hgone, hcov⟩ := hstage
    refine ⟨h.drained hdrn, h.jobIs hjob, hmain.trans h.main, fun hnone => hlog (hgone hnone), ?_⟩
    rintro oid hcur
    obtain ⟨hphase, hexp, hoid⟩ := hcov oid hcur
    exact ⟨hphase, hexp, hoid.imp (·.trans h.main) id⟩
  | enterDelete moves =>
    obtain ⟨hdrn, halw⟩ := hstage
    refine ⟨h.drained hdrn, fun job hjob oid hexp => ?_⟩
    rcases h.job with hnone | hsame
    · exact nomatch hnone.symm.trans hjob
    · exact h.allows hdrn (halw job (hsame.symm.trans hjob) oid hexp)
  | deleteRef moves expected =>
    obtain ⟨hdrn, halw⟩ := hstage
    exact ⟨h.drained hdrn, fun oid hexp => h.allows hdrn (halw oid hexp)⟩
  | syncRepository | acceptAbsent | enterCleanup | sweepCredentials | sweepReplay
  | eraseTransfers => exact ⟨h.drained hstage.1, hlog hstage.2⟩
  | sweepBookkeeping | complete => exact ⟨h.drained hstage.1, h.erased hstage.1 hstage.2⟩

lemma sound (hsound : Sound s) : Sound s' := by
  refine ⟨h.log ▸ hsound.log, ?_, ?_, h.stage ▸ h.stageSound hsound.stage⟩
  · rintro job hjob
    rcases h.job with hnone | hsame
    · exact nomatch hnone.symm.trans hjob
    · have hknown := hsound.job job (hsame.symm.trans hjob)
      exact ⟨h.log ▸ hknown.1, h.revoked hknown.2⟩
  · rintro hgone
    rw [h.log]
    exact hsound.device (h.device.symm.trans hgone)

end

end Beside

lemma Sound.request (h : Sound s) (ownerUserId : String) (confirmation : Option String)
    (discardUnmerged : Bool) : Sound (s.request ownerUserId confirmation discardUnmerged) := by
  simp only [State.request]
  split
  · exact h.refuse _
  split
  · exact h.refuse _
  · exact ⟨h.log, h.job, h.device_cons _, .inr rfl⟩

lemma Sound.afterGrant (h : Sound (s.goTo .idle)) {phraseMatches : Bool}
    (hrec : lastRecorded s.log = some (phraseMatches && discard)) (selected : Selected Oid) :
    Sound (s.afterGrant phraseMatches discard selected) := by
  simp only [State.afterGrant]
  split
  · exact h.refuse _
  rename_i hmat
  rw [Bool.not_eq_true', Bool.not_eq_false] at hmat
  rw [hmat, Bool.true_and] at hrec
  split
  · exact h.refuse _
  split
  · exact h.goTo hrec
  split
  · exact h.goTo hrec
  · exact h.goTo hrec

/-- A request's grant, or that it has none, is recorded before anything else is decided. -/
lemma Sound.persistGrant (h : Sound s) (hknown : s.job = none ∨ s.job = selected.job)
    (hstep : s.persistGrant answer confirmation discard selected = some s') : Sound s' := by
  cases answer with
  | done =>
    cases hstep
    generalize hgrant : (decide (confirmation = some (expectedPhrase s.deviceId discard)) && discard) = grant
    refine Sound.afterGrant ?_ (hgrant ▸ rfl) selected
    have hdev : s.device = false → ∃ left, .removed left ∈ .recorded grant :: s.log :=
      h.device_cons _
    cases hsel : selected.job with
    | none =>
      rw [hsel, or_self] at hknown
      exact ⟨h.log, fun job hjob => (nomatch hknown.symm.trans hjob), hdev, trivial⟩
    | some recorded =>
      dsimp only
      split
      · -- the journal takes the grant of this request
        refine ⟨h.log, ?_, hdev, trivial⟩
        rintro job hjob
        obtain ⟨old, hold, rfl⟩ := Option.map_eq_some_iff.mp hjob
        exact ⟨rfl, (h.job old hold).2⟩
      · rename_i hsame
        rw [bne_iff_ne, ne_eq, not_not] at hsame
        refine ⟨h.log, ?_, hdev, trivial⟩
        rintro job hjob
        rcases hknown with hnone | hjob'
        · exact nomatch hnone.symm.trans hjob
        · cases hsel.symm.trans (hjob'.symm.trans hjob)
          exact ⟨congrArg some hsame.symm, (h.job _ hjob).2⟩
  | throws =>
    cases hstep
    exact h.refuse none
  | unavailable | denied => cases hstep

lemma Sound.readForIntent (h : Sound s) (hrec : lastRecorded s.log = some discard)
    (hstep : s.readForIntent answer discard selected = some s') : Sound s' := by
  simp only [State.readForIntent] at hstep
  split at hstep
  · cases hstep
    exact h.refuse _
  split at hstep
  · split at hstep
    · split at hstep
      · cases hstep
        exact h.refuse _
      · cases hstep
        exact h.goTo hrec
    · cases hstep
      exact h.goTo hrec
  · cases hstep
    exact h.refuse _
  · cases hstep

omit [Preorder Oid] in
lemma refusal_eq_none (hnone : s.refusal = none) : s.device ∧ s.revoked := by
  simp only [refusal] at hnone
  split at hnone
  · cases hnone
  split at hnone
  · cases hnone
  split at hnone
  · cases hnone
  · rename_i hdev hrvk
    simpa using And.intro hdev hrvk

lemma Sound.commitIntent (h : Sound s) {oid : Option Oid} (hrec : lastRecorded s.log = some discard)
    (hstep : s.commitIntent answer discard oid = some s') : Sound s' := by
  cases answer with
  | done =>
    simp only [commitIntent] at hstep
    split at hstep
    · cases hstep
      exact h.refuse _
    rename_i hnone
    obtain ⟨-, hrvk⟩ := refusal_eq_none hnone
    cases hstep
    refine ⟨h.log, ?_, h.device, hrvk⟩
    rintro job hjob
    cases hjob
    refine ⟨?_, hrvk⟩
    split <;> exact hrec
  | throws =>
    cases hstep
    exact h.refuse none
  | unavailable | denied => cases hstep

end Order

section Steps
variable [Preorder Oid] {s s' : State Oid} {moves : Nat} {current expected : Option Oid}

lemma eligible_sound (hdrn : s.Drained) (hjob : s.JobIs job) (hmain : selected.currentMain ≤ s.main)
    (hgone : current = none → Gone s.log) (hphase : job.phase = .intent ∨ current ≠ none)
    (hcle : job.phase ≠ .cleanup) (hexp : job.expectedRefOid = current) :
    s.StageSound (eligible moves selected job current) := by
  have hcover : ∀ oid, current = some oid → s.StageSound (.cover moves selected job oid) := by
    rintro oid rfl
    exact ⟨hdrn, hjob, hmain, hcle, hexp⟩
  unfold eligible
  split
  · split
    · trivial
    split
    · exact hcover _ rfl
    · exact ⟨hdrn, hjob, hmain, fun _ => hgone rfl, fun _ hnone => (by cases hnone)⟩
  · rename_i hother
    split
    · exact hcover _ rfl
    rcases hphase with hintent | hne
    · exact absurd hintent hother
    · exact absurd rfl hne

lemma afterRead_sound [DecidableEq Oid] (hdrn : s.Drained) (hjob : s.JobIs job)
    (hmain : selected.currentMain ≤ s.main) (hgone : current = none → Gone s.log) :
    s.StageSound (afterRead moves selected job current) := by
  unfold afterRead
  split
  · rename_i hnone
    exact ⟨hdrn, hjob, hmain, fun _ => hgone hnone.2, fun _ hsome => (by cases hsome)⟩
  rename_i hpres
  split
  · split
    · rename_i hnone
      split
      · trivial
      split
      · trivial
      · exact ⟨hdrn, hgone hnone.2⟩
    · split
      · trivial
      · exact ⟨hdrn, hmain, hgone⟩
  · rename_i hsame
    rw [not_or, not_not] at hsame
    refine eligible_sound hdrn hjob hmain hgone ?_ hsame.1 hsame.2.symm
    by_contra hnot
    rw [not_or, not_not] at hnot
    exact hpres hnot

lemma afterStaged_sound (hstage : s.StageSound (.staged moves selected job current)) (hcov : job.discardUnmerged ∨
      ∀ commit ∈ stagedTargetCommits s.unread s.sessions, commit ≤ selected.currentMain) :
    s.StageSound (afterStaged moves job current) := by
  obtain ⟨hdrn, hjob, hmain, hgone, hoid⟩ := hstage
  have halw : ∀ oid, current = some oid → s.Allows oid := by
    rintro oid hcur
    have hcons : job.discardUnmerged = true → s.Allows oid := fun hdisc =>
      .inr (hjob.2.trans (congrArg some hdisc))
    rcases (hoid oid hcur).2.2 with hle | hdisc
    · rcases hcov with hdisc | hstg
      · exact hcons hdisc
      · exact .inl ⟨hle, fun commit hmem => (hstg commit hmem).trans hmain⟩
    · exact hcons hdisc
  cases current with
  | none =>
    cases hphase : job.phase <;> simp only [afterStaged, hphase] <;> exact ⟨hdrn, hgone rfl⟩
  | some oid =>
    obtain ⟨hcle, hexp, -⟩ := hoid oid rfl
    cases hphase : job.phase with
    | intent =>
      simp only [afterStaged, hphase]
      refine ⟨hdrn, fun job' hjob' oid' hexp' => ?_⟩
      rcases hjob.1 with hnone | hsame
      · exact nomatch hnone.symm.trans hjob'
      cases hsame.symm.trans hjob'
      cases hexp.symm.trans hexp'
      exact halw oid rfl
    | refDeleting =>
      simp only [afterStaged, hphase]
      refine ⟨hdrn, fun oid' hexp' => ?_⟩
      cases hexp.symm.trans hexp'
      exact halw oid rfl
    | cleanup => exact absurd hphase hcle

section
variable (h : Sound s)
include h

lemma Sound.readRef [DecidableEq Oid] (hstage : s.StageSound (.readRef moves selected job))
    (hstep : s.readRef answer moves selected job = some s') : Sound s' := by
  obtain ⟨hdrn, hjob, hmain⟩ := hstage
  simp only [State.readRef] at hstep
  split at hstep
  · cases hstep
    exact h.goTo trivial
  split at hstep
  · split at hstep
    · cases hstep
      have hread : Sound { s.goTo .idle with log := .readAbsent :: s.log } :=
        ⟨h.log, h.job, h.device_cons _, trivial⟩
      have hgone : Gone (.readAbsent :: s.log) := ⟨[], _, _, rfl, List.not_mem_nil, .inl rfl⟩
      exact hread.goTo (afterRead_sound hdrn hjob hmain fun _ => hgone)
    · cases hstep
      exact h.goTo (afterRead_sound hdrn hjob hmain fun hnone => (by cases hnone))
  · cases hstep
    exact h.goTo trivial
  · cases hstep

lemma Sound.deleteRef [DecidableEq Oid] (hdrn : s.Drained)
    (hstep : s.deleteRef answer moves expected = some s') : Sound s' := by
  cases expected with
  | none =>
    cases hstep
    exact h.goTo trivial
  | some oid =>
    cases answer with
    | done =>
      simp only [deleteRef] at hstep
      split at hstep
      · cases hstep
        refine ⟨h.log, h.job, h.device_cons _, hdrn, ?_⟩
        exact ⟨[], _, _, rfl, List.not_mem_nil, .inr ⟨_, _, _, rfl⟩⟩
      · cases hstep
        exact h.goTo hdrn
    | throws =>
      cases hstep
      exact h.goTo hdrn
    | unavailable =>
      cases hstep
      exact h.goTo trivial
    | denied => cases hstep

lemma Sound.rereadRef [DecidableEq Oid] {expected : Oid}
    (hdrn : s.Drained) (hstep : s.rereadRef answer moves expected = some s') : Sound s' := by
  cases answer with
  | done =>
    simp only [rereadRef] at hstep
    split at hstep
    · cases hstep
      refine ⟨h.log, h.job, h.device_cons _, hdrn, ?_⟩
      exact ⟨[], _, _, rfl, List.not_mem_nil, .inl rfl⟩
    split at hstep
    · cases hstep
      exact h.goTo trivial
    · cases hstep
      exact h.goTo hdrn
  | throws =>
    cases hstep
    exact h.goTo trivial
  | unavailable | denied => cases hstep

lemma Sound.drainTransfers (hrvk : s.revoked) (hstep : s.drainTransfers answer = some s') : Sound s' := by
  cases answer with
  | done =>
    cases hstep
    exact { h with stage := hrvk }
  | unavailable | throws =>
    cases hstep
    exact h.goTo trivial
  | denied => cases hstep

lemma Sound.drainLeases (hrvk : s.revoked) (hstep : s.drainLeases answer = some s') : Sound s' := by
  cases answer with
  | done =>
    obtain ⟨hzero, ⟨⟩⟩ := Option.ite_none_right_eq_some.mp hstep
    exact h.goTo ⟨hrvk, hzero.2⟩
  | unavailable =>
    cases hstep
    exact h.goTo trivial
  | throws | denied => cases hstep

lemma Sound.selectForStep (hdrn : s.Drained) (hstep : s.selectForStep answer moves = some s') : Sound s' := by
  cases answer with
  | done =>
    simp only [selectForStep] at hstep
    split at hstep
    · cases hstep
      exact h.supersede
    rename_i job hjob
    split at hstep
    · cases hstep
      exact h.supersede
    · cases hstep
      exact h.goTo ⟨hdrn, ⟨.inr hjob, (h.job job hjob).1⟩, le_rfl⟩
  | denied | throws =>
    cases hstep
    exact h.goTo trivial
  | unavailable => cases hstep

/-- The row goes with its journal, once the ref is gone and the transfers are erased. -/
lemma Sound.remove (hstage : s.StageSound .complete) : Sound s.remove :=
  ⟨⟨hstage.2, h.log⟩, fun _ hjob => (by cases hjob), fun _ => ⟨_, List.mem_cons_self⟩, trivial⟩

lemma Sound.recordFailure {failure : Failure} (hstep : s.recordFailure answer failure = some s') : Sound s' := by
  cases answer with
  | done =>
    cases hstep
    refine ⟨h.log, ?_, h.device_cons _, trivial⟩
    rintro job hjob
    obtain ⟨old, hold, rfl⟩ := Option.map_eq_some_iff.mp hjob
    exact h.job old hold
  | throws =>
    cases hstep
    exact h.refuse _
  | unavailable | denied => cases hstep

end

variable [DecidableLE Oid] [DecidableEq Oid] {currentMain : Oid}

omit [DecidableEq Oid] in
lemma assertCovered_eq_none
    (hnone : assertCovered currentMain oid discard = none) : oid ≤ currentMain ∨ discard := by
  unfold assertCovered at hnone
  split at hnone
  · assumption
  · cases hnone

lemma assertStagedCovered_eq_none (hnone : s.assertStagedCovered currentMain = none) :
    ∀ commit ∈ stagedTargetCommits s.unread s.sessions, commit ≤ currentMain := by
  unfold assertStagedCovered at hnone
  split at hnone
  · rename_i hall
    exact fun commit hmem => (hall commit hmem).2
  · cases hnone

lemma Sound.advance (h : Sound s) (hstep : s.advance answer = some s') : Sound s' := by
  have hstage := h.stage
  unfold State.advance at hstep
  split at hstep <;> rename_i hat <;> rw [hat] at hstage
  · cases hstep
  · exact h.persistGrant hstage hstep
  · exact h.readForIntent hstage hstep
  · -- coverForIntent
    split at hstep
    · split at hstep
      · cases hstep
        exact h.refuse _
      · cases hstep
        exact h.goTo hstage
    · cases hstep
      exact h.refuse _
    · cases hstep
  · -- stagedForIntent
    split at hstep
    · cases hstep
      exact h.goTo hstage
    split at hstep
    · cases hstep
      exact h.refuse _
    · cases hstep
  · exact h.commitIntent hstage hstep
  · -- markPending
    have hdriv : Sound { s with log := .driven :: s.log } := by
      refine ⟨h.log, h.job, h.device_cons _, ?_⟩
      rw [hat]
      exact hstage
    exact hdriv.updateJob hstep (fun _ => rfl) fun _ _ => hstage
  · exact h.drainTransfers hstage hstep
  · exact h.drainLeases hstage hstep
  · exact h.selectForStep hstage hstep
  · exact h.readRef hstage hstep
  · -- rebind
    obtain ⟨hdrn, hmain, hgone⟩ := hstage
    refine h.updateJob hstep (fun _ => rfl) fun job hjob => ?_
    exact eligible_sound hdrn ⟨.inr rfl, (h.job job hjob).1⟩ hmain hgone (.inl rfl)
      Phase.noConfusion rfl
  · -- cover
    obtain ⟨hdrn, hjob, hmain, hcle, hexp⟩ := hstage
    split at hstep
    · split at hstep
      · cases hstep
        exact h.goTo trivial
      rename_i hcov
      cases hstep
      refine h.goTo ⟨hdrn, hjob, hmain, fun hnone => (by cases hnone), ?_⟩
      rintro other hother
      cases hother
      exact ⟨hcle, hexp, (assertCovered_eq_none hcov).imp (·.trans hmain) id⟩
    · cases hstep
      exact h.goTo trivial
    · cases hstep
  · -- staged
    split at hstep
    · rename_i hdisc
      cases hstep
      exact h.goTo (afterStaged_sound hstage (.inl hdisc))
    split at hstep
    · cases hstep
      exact h.goTo trivial
    · cases hstep
  · -- enterDelete
    obtain ⟨hdrn, halw⟩ := hstage
    exact h.updateJob hstep (fun _ => rfl) fun job hjob => ⟨hdrn, fun oid => halw job hjob oid⟩
  · exact h.deleteRef hstage.1 hstep
  · exact h.rereadRef hstage hstep
  · -- syncRepository
    split at hstep
    · cases hstep
      exact h.goTo hstage
    · cases hstep
      exact h.goTo trivial
    · cases hstep
  · exact h.updateJob hstep (fun _ => rfl) fun _ _ => hstage
  · exact h.updateJob hstep (fun _ => rfl) fun _ _ => hstage
  · exact h.sweep hstep (h.goTo hstage)
  · exact h.sweep hstep (h.goTo hstage)
  · split at hstep
    · cases hstep
      exact h.goTo trivial
    · cases hstep
  · exact h.sweep hstep (h.goTo hstage)
  · exact h.sweep hstep (h.remove hstage)
  · exact h.recordFailure hstep

lemma Sound.inspectTransfers (h : Sound s) {unread : List String}
    (hstep : s.inspectTransfers unread = some s') : Sound s' := by
  have hidle : Sound { s with unread, stage := .idle } := ⟨h.log, h.job, h.device, trivial⟩
  have hstage := h.stage
  simp only [State.inspectTransfers] at hstep
  split at hstep <;> rename_i hat <;> try rw [hat] at hstage
  · split at hstep
    · cases hstep
      exact hidle.refuse _
    · cases hstep
      exact hidle.goTo hstage
  · obtain ⟨-, hstep⟩ := Option.ite_none_left_eq_some.mp hstep
    split at hstep
    · cases hstep
      exact hidle.goTo trivial
    rename_i hcov
    cases hstep
    exact hidle.goTo (afterStaged_sound hstage (.inr (assertStagedCovered_eq_none hcov)))
  · cases hstep

omit [DecidableLE Oid] [DecidableEq Oid] in
lemma Sound.resumePending (h : Sound s) : Sound s.resumePending := by
  unfold State.resumePending
  split
  · exact h
  rename_i job hjob
  split
  · exact h
  split
  · have hdrop : Beside s { s with job := none, closing := false } :=
      .of_kept rfl rfl rfl le_rfl id (.inl rfl) rfl rfl rfl
    exact hdrop.sound h
  split
  · have hcls : Beside s { s with closing := true } :=
      .of_kept rfl rfl rfl le_rfl id (.inr rfl) rfl rfl rfl
    exact hcls.sound h
  · exact { h with stage := (h.job job hjob).2 }

omit [Preorder Oid] [DecidableLE Oid] [DecidableEq Oid] in
lemma staged_filter {unread : List String} {sessions : List (Session Oid)} (p : Session Oid → Bool) :
    stagedTargetCommits unread (sessions.filter p) ⊆ stagedTargetCommits unread sessions := by
  intro commit hmem
  obtain ⟨session, hsess, rfl⟩ := List.mem_map.mp hmem
  rw [List.mem_filter, List.mem_filter] at hsess
  exact List.mem_map.mpr ⟨session, List.mem_filter.mpr ⟨hsess.1.1, hsess.2⟩, rfl⟩

lemma Sound.step (h : Sound s) {label : Label Oid} (hstep : s.step label = some s') : Sound s' := by
  have beside : Beside s s' → Sound s' := fun hbes => hbes.sound h
  cases label with
  | request ownerUserId confirmation discardUnmerged =>
    obtain ⟨-, ⟨⟩⟩ := Option.ite_none_right_eq_some.mp hstep
    exact h.request ownerUserId confirmation discardUnmerged
  | resumePending =>
    obtain ⟨-, ⟨⟩⟩ := Option.ite_none_right_eq_some.mp hstep
    exact h.resumePending
  | advance answer => exact h.advance hstep
  | inspectTransfers unread => exact h.inspectTransfers hstep
  | eraseDeviceResidue unreadable =>
    obtain ⟨hat, hstep⟩ := Option.ite_none_right_eq_some.mp hstep
    obtain ⟨hdrn, hgone⟩ := (hat ▸ h.stage : s.StageSound .eraseTransfers)
    cases hstep
    refine ⟨h.log, h.job, h.device_cons _, hdrn, [], unreadable, s.log, rfl, List.not_mem_nil, ?_, hgone⟩
    intro transferId hmem
    obtain ⟨session, hsess, rfl⟩ := List.mem_map.mp hmem
    exact List.contains_iff_mem.mp (List.mem_filter.mp hsess).2
  | crash =>
    cases hstep
    exact { h with stage := trivial }
  | tryAcquireDeviceLease =>
    obtain ⟨-, ⟨⟩⟩ := Option.ite_none_left_eq_some.mp hstep
    exact beside (.of_kept rfl rfl rfl le_rfl id (.inr rfl) rfl rfl rfl)
  | settleLease =>
    obtain ⟨-, ⟨⟩⟩ := Option.ite_none_right_eq_some.mp hstep
    refine beside ⟨rfl, rfl, rfl, le_rfl, id, .inr rfl, fun hdrn => ?_,
      fun _ => List.Subset.refl _, fun _ => List.Subset.refl _⟩
    rw [hdrn.1, Bool.not_true, Bool.and_false, Bool.false_and, if_neg Bool.false_ne_true]
    exact hdrn.2
  | detach =>
    obtain ⟨hworks, ⟨⟩⟩ := Option.ite_none_right_eq_some.mp hstep
    exact beside (.of_working hworks.1 rfl rfl rfl le_rfl id (.inr rfl))
  | releaseLease | createPush | settlePush =>
    obtain ⟨hworks, ⟨⟩⟩ := Option.ite_none_right_eq_some.mp hstep
    exact beside (.of_working hworks rfl rfl rfl le_rfl id (.inr rfl))
  | dropPush transferId =>
    cases hstep
    exact beside ⟨rfl, rfl, rfl, le_rfl, id, .inr rfl, fun hdrn => hdrn.2,
      fun _ => staged_filter _, fun _ => List.map_subset _ List.filter_sublist.subset⟩
  | moveRef | importObjects | recordHead | setWork =>
    cases hstep
    exact beside (.of_kept rfl rfl rfl le_rfl id (.inr rfl) rfl rfl rfl)
  | advanceMain main =>
    obtain ⟨hle, ⟨⟩⟩ := Option.ite_none_right_eq_some.mp hstep
    exact beside (.of_kept rfl rfl rfl hle id (.inr rfl) rfl rfl rfl)
  | revoke =>
    cases hstep
    exact beside (.of_kept rfl rfl rfl le_rfl (fun _ => rfl) (.inr rfl) rfl rfl rfl)
  | deleteVault =>
    cases hstep
    exact beside (.of_kept rfl rfl rfl le_rfl (fun _ => rfl) (.inl rfl) rfl rfl rfl)

lemma Sound.run {labels : List (Label Oid)} (h : Sound s) (hrun : s.run labels = some s') : Sound s' :=
  LabelledRuns.inv_run hrun (fun _ => rfl) (fun _ _ _ => rfl) (·.step ·) h

omit [Preorder Oid] [DecidableLE Oid] [DecidableEq Oid] in
lemma updateJob_ref {next : Job Oid → Stage Oid}
    (hstep : s.updateJob answer change next = some s') : s'.ref = s.ref := by
  unfold updateJob at hstep
  grind [supersede, goTo]

omit [Preorder Oid] [DecidableLE Oid] [DecidableEq Oid] in
lemma sweep_ref (hnext : (next s).ref = s.ref) (hstep : s.sweep answer next = some s') : s'.ref = s.ref := by
  unfold sweep at hstep
  grind [supersede, goTo]

omit [Preorder Oid] [DecidableLE Oid] [DecidableEq Oid] in
lemma persistGrant_ref
    (hstep : s.persistGrant answer confirmation discard selected = some s') : s'.ref = s.ref := by
  simp only [persistGrant, afterGrant] at hstep
  grind [refuse, goTo]

omit [Preorder Oid] [DecidableLE Oid] [DecidableEq Oid] in
lemma readForIntent_ref (hstep : s.readForIntent answer discard selected = some s') : s'.ref = s.ref := by
  simp only [readForIntent] at hstep
  grind [refuse, goTo]

omit [Preorder Oid] [DecidableLE Oid] in
lemma readRef_ref (hstep : s.readRef answer moves selected job = some s') : s'.ref = s.ref := by
  simp only [readRef] at hstep
  grind [goTo]

omit [Preorder Oid] [DecidableLE Oid] in
lemma deleteRef_ref (hstep : s.deleteRef answer moves expected = some s') (hmoved : s'.ref ≠ s.ref) :
    ∃ oid, expected = some oid ∧ s.ref = some oid ∧ s'.ref = none := by
  cases expected with
  | none =>
    cases hstep
    exact absurd rfl hmoved
  | some oid =>
    refine ⟨oid, rfl, ?_⟩
    simp only [deleteRef] at hstep
    grind [goTo]

/-- A removal moves the device ref in one place only, and there it deletes it. -/
lemma advance_ref (hstep : s.advance answer = some s') (hmoved : s'.ref ≠ s.ref) :
    ∃ moves oid, s.stage = .deleteRef moves (some oid) ∧ s.ref = some oid ∧ s'.ref = none := by
  unfold advance at hstep
  split at hstep
  case h_2 => exact absurd (persistGrant_ref hstep) hmoved
  case h_3 => exact absurd (readForIntent_ref hstep) hmoved
  case h_7 => exact absurd (updateJob_ref hstep) hmoved
  case h_11 => exact absurd (readRef_ref hstep) hmoved
  case h_12 => exact absurd (updateJob_ref hstep) hmoved
  case h_15 => exact absurd (updateJob_ref hstep) hmoved
  case h_16 moves expected hat =>
    obtain ⟨oid, rfl, href, hnone⟩ := deleteRef_ref hstep hmoved
    exact ⟨moves, oid, hat, href, hnone⟩
  case h_19 => exact absurd (updateJob_ref hstep) hmoved
  case h_20 => exact absurd (updateJob_ref hstep) hmoved
  case h_21 => exact absurd (sweep_ref rfl hstep) hmoved
  case h_22 => exact absurd (sweep_ref rfl hstep) hmoved
  case h_24 => exact absurd (sweep_ref rfl hstep) hmoved
  case h_25 => exact absurd (sweep_ref rfl hstep) hmoved
  all_goals
    cases answer <;> grind [commitIntent, drainTransfers, drainLeases,
      selectForStep, rereadRef, recordFailure,
      refuse, supersede, goTo]

omit [DecidableLE Oid] [DecidableEq Oid] in
lemma sound_start (deviceId ownerUserId deviceRef : String) (revoked : Bool) (main : Oid)
    (ref : Option Oid) (objects : List Oid) (sessions : List (Session Oid)) :
    Sound (start deviceId ownerUserId deviceRef revoked main ref objects sessions) :=
  ⟨trivial, fun _ hjob => (by cases hjob), fun hgone => (by cases hgone), trivial⟩

end Steps

end State

open State

/-- In every run: a removal deletes the device ref only where what that discards is merged, as far as
the staged transfers could be read, or where the grant that was recorded last consents; the journal
says what was recorded last, so that a later request without consent withdraws an earlier one; and the
row goes only in a run that found the ref absent or deleted it, and erased the transfer sessions after
that. -/
theorem removal_discards_by_consent [Preorder Oid] [DecidableLE Oid] [DecidableEq Oid]
    {deviceId ownerUserId deviceRef : String} {revoked : Bool} {main : Oid} {ref : Option Oid}
    {objects : List Oid} {sessions : List (Session Oid)} {labels : List (Label Oid)} {s : State Oid}
    (hrun : (start deviceId ownerUserId deviceRef revoked main ref objects sessions).run labels
      = some s) : (∀ answer s', s.advance answer = some s' → s'.ref ≠ s.ref →
      ∃ oid, s.ref = some oid ∧ s'.ref = none ∧
        ((oid ≤ s.main ∧ ∀ commit ∈ stagedTargetCommits s.unread s.sessions, commit ≤ s.main) ∨
          lastRecorded s.log = some true)) ∧
    (∀ job, s.job = some job → lastRecorded s.log = some job.discardUnmerged) ∧
    (s.device = false → ∃ left, .removed left ∈ s.log) ∧
    ∀ later left earlier, s.log = later ++ .removed left :: earlier → Erased left earlier := by
  have hsound : Sound s := (sound_start ..).run hrun
  refine ⟨?_, fun job hjob => (hsound.job job hjob).1, hsound.device,
    fun later left earlier hlog => hsound.log.removed hlog⟩
  rintro answer s' hstep hmoved
  obtain ⟨moves, oid, hat, href, hnone⟩ := advance_ref hstep hmoved
  have hstage := hsound.stage
  rw [hat] at hstage
  exact ⟨oid, href, hnone, hstage.2 oid rfl⟩

/-- The steps of a removal from its request to the end of a run that nothing disturbs. -/
def undisturbed : List (Label Nat) :=
  .request "owner" (some "DELETE dev") false :: List.replicate 3 (.advance .done) ++
    .inspectTransfers [] :: List.replicate 7 (.advance .done) ++
    .inspectTransfers [] :: List.replicate 6 (.advance .done) ++
    [.eraseDeviceResidue [], .advance .done, .advance .done]

/-- A request with the discard phrase, whose run times out; a request without it, which the process
does not survive; and the run that the next process resumes. -/
def interrupted : List (Label Nat) :=
  .request "owner" (some "DELETE dev AND DISCARD UNMERGED WORK") true ::
    List.replicate 6 (.advance .done) ++
    [.advance .unavailable, .advance .done, .request "owner" (some "DELETE dev") false, .crash,
      .resumePending] ++ List.replicate 9 (.advance .done)

def revokedDevice (ref : Nat) : State Nat :=
  start "dev" "owner" "refs/obts/devices/dev" true 1 (some ref) [1] []

lemma undisturbed_run : ∃ s, (revokedDevice 1).run undisturbed = some s ∧ s.device = false ∧
    s.log = [.removed [], .erased [], .deleted 1 1 [], .driven, .recorded false, .asked false] :=
  ⟨_, rfl, rfl, rfl⟩

theorem removal_discards_by_consent_undisturbed :
    ∃ s, (revokedDevice 1).run undisturbed = some s ∧ ∃ left, .removed left ∈ s.log := by
  obtain ⟨s, hrun, hdev, -⟩ := undisturbed_run
  exact ⟨s, hrun, (removal_discards_by_consent hrun).2.2.1 hdev⟩

lemma interrupted_run : ∃ s log, (revokedDevice 2).run interrupted = some s ∧
    s.log = .deleted 2 1 [] :: log ∧ lastAsked log = some false :=
  ⟨_, _, rfl, rfl, rfl⟩

/-- The row goes without a strict read that finds the ref absent: the deletion of the ref itself stands
for it. And the ref goes at unmerged work although the last request did not consent, where the process
ended before that was recorded. -/
theorem removal_without_absent_read :
    (¬ ∀ labels s, (revokedDevice 1).run labels = some s → s.device = false → .readAbsent ∈ s.log) ∧
    ¬ ∀ labels s, (revokedDevice 2).run labels = some s → ∀ later oid main staged earlier,
      s.log = later ++ .deleted oid main staged :: earlier → oid ≤ main ∨ lastAsked earlier = some true := by
  constructor
  · intro habs
    obtain ⟨s, hrun, hdev, hlog⟩ := undisturbed_run
    have hmem := habs undisturbed s hrun hdev
    rw [hlog] at hmem
    revert hmem
    decide
  · intro hcons
    obtain ⟨s, log, hrun, hlog, hasked⟩ := interrupted_run
    rcases hcons interrupted s hrun [] 2 1 [] log hlog with hle | hcon
    · omega
    · exact nomatch hasked.symm.trans hcon

end DeviceRemoval
