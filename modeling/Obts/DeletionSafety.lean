import Obts.IsoTimestamps
import Obts.VaultDeletion

/-!
# Vault deletion safety

What a step of the lifecycle can do to admissions, to the Git repository and to the durable
phase, and the statement about whole runs that follows from it.
-/
namespace VaultDeletion

open DeletionRecords Option List State

variable {vaultId : String} {s s' s'' : State} {dateParse : String → Option Int} {label : Label}
  {stage : WorkerStage} {event : WorkerEvent} {labels : List Label} {i : Nat}

/-- A step that neither opens the barrier, nor grants an admission, nor touches Git. -/
structure Quiet (s s' : State) : Prop where
  closing : s.barrier.closing = true → s'.barrier.closing = true
  granted : s'.granted = s.granted
  admissions : s'.admissions.length ≤ s.admissions.length
  git : s'.git = s.git

lemma Quiet.refl (s : State) : Quiet s s := ⟨id, rfl, le_rfl, rfl⟩

lemma Quiet.trans {s : State} (h : Quiet s s') (h' : Quiet s' s'') : Quiet s s'' :=
  ⟨h'.closing ∘ h.closing, h'.granted.trans h.granted, h'.admissions.trans h.admissions, h'.git.trans h.git⟩

lemma quiet_of_eq (hbar : s'.barrier = s.barrier)
    (hgrt : s'.granted = s.granted) (hadm : s'.admissions = s.admissions) (hgit : s'.git = s.git) : Quiet s s' :=
  ⟨fun h => hbar ▸ h, hgrt, hadm ▸ le_rfl, hgit⟩

section
variable (s)

lemma quiet_mutateDurably (change : MetadataDb → Option MetadataDb) (write : Write) :
    Quiet s (s.mutateDurably change write).1 := by
  obtain ⟨memory, disk, uncertain, uncleaned, heq, -, -, -⟩ :=
    mutateDurably_cases s change write (fun _ => True) fun _ _ => trivial
  rw [heq]
  exact quiet_of_eq rfl rfl rfl rfl

lemma quiet_close (closed : Bool) : Quiet s (s.close closed) :=
  ⟨fun _ => rfl, rfl, le_rfl, rfl⟩

lemma quiet_goTo (i : Nat) (stage : WorkerStage) : Quiet s (s.goTo i stage) :=
  quiet_of_eq rfl rfl rfl rfl

lemma quiet_startWorker : Quiet s s.startWorker := by
  unfold startWorker
  split
  · exact .refl s
  · exact ⟨id, rfl, le_rfl, rfl⟩

lemma quiet_endTransition : Quiet s s.endTransition := quiet_of_eq rfl rfl rfl rfl

lemma quiet_release (admission : Nat) : Quiet s (s.release admission) := by
  unfold release
  split
  · dsimp only
    split <;> exact ⟨id, rfl, length_erase_le, rfl⟩
  · exact .refl s

lemma quiet_decideDeletion (vaultId ownerUserId : String)
    (confirmation : Option String) (initial : MetadataDb) (requestedAt : String) :
    Quiet s (s.decideDeletion vaultId ownerUserId confirmation initial requestedAt) := by
  have hend := quiet_endTransition s
  unfold decideDeletion
  split
  · split
    · exact hend
    · exact ((quiet_close s false).trans (quiet_startWorker _)).trans (quiet_endTransition _)
  · split
    · exact hend
    · exact (quiet_close s true).trans (quiet_endTransition _)
  · split
    · exact hend
    split
    · exact hend
    split
    · exact hend
    split
    · exact hend
    · exact (quiet_close s false).trans (quiet_of_eq rfl rfl rfl rfl)

lemma quiet_acceptDeletion (vaultId ownerUserId requestedAt : String)
    (write : Write) : Quiet s (s.acceptDeletion vaultId ownerUserId requestedAt write) := by
  have hmut := quiet_mutateDurably s (fun db =>
    (DeletionRecords.acceptDeletion db vaultId ownerUserId requestedAt).toOption) write
  unfold State.acceptDeletion
  dsimp only
  split
  · exact (hmut.trans (quiet_startWorker _)).trans (quiet_endTransition _)
  · exact hmut.trans (quiet_endTransition _)

lemma quiet_reconcile (vaultId : String) : Quiet s (s.reconcile vaultId) := by
  unfold reconcile
  split
  · exact .refl s
  dsimp only
  split
  · exact quiet_close s false
  · exact (quiet_close s false).trans (quiet_of_eq rfl rfl rfl rfl)

lemma quiet_commitReconciliation (vaultId : String) (i : Nat) (requestedAt : String) (write : Write) :
    Quiet s (s.commitReconciliation vaultId i requestedAt write) := by
  have hdrop : Quiet s { s with reconciliations := s.reconciliations.eraseIdx i } :=
    quiet_of_eq rfl rfl rfl rfl
  have hmut := hdrop.trans (quiet_mutateDurably _
    (fun db => some (reconcileDeletingVaultRow db vaultId requestedAt)) write)
  unfold commitReconciliation
  dsimp only
  split
  · exact hmut
  · exact hmut.trans (quiet_close _ false)

lemma quiet_workerMutation (i : Nat) (change : MetadataDb → Option MetadataDb)
    (write : Write) (next : WorkerStage) : Quiet s (s.workerMutation i change write next) :=
  (quiet_mutateDurably s change write).trans (quiet_goTo _ _ _)

lemma quiet_finalize (vaultId : String) (i : Nat) (completedAt : String)
    (write : Write) : Quiet s (s.finalize vaultId i completedAt write) := by
  have hmut := quiet_mutateDurably s (fun db => (finalizeDb db vaultId completedAt).toOption) write
  unfold finalize
  dsimp only
  split
  · exact (hmut.trans (quiet_close _ _)).trans (quiet_goTo _ _ _)
  · exact hmut.trans (quiet_goTo _ _ _)

end

/-- Only the removal of the repository touches Git, and it touches nothing else that matters. -/
lemma quiet_workerStep (hstep : s.workerStep vaultId i stage event = some s') :
    Quiet s s' ∨ (∃ present, stage = .removeGit present) ∧ Quiet s { s' with git := s.git } := by
  unfold workerStep at hstep
  split at hstep
  all_goals first
    | obtain rfl := some.inj hstep
    | skip
  all_goals try exact .inl (quiet_goTo _ _ _)
  · refine .inl ?_
    unfold beginIteration
    split
    · exact quiet_goTo _ _ _
    split
    · exact quiet_goTo _ _ _
    · exact quiet_close _ _
  · refine .inl ?_
    unfold chooseWork
    split
    · exact quiet_goTo _ _ _
    split
    · exact quiet_goTo _ _ _
    · exact (quiet_close _ _).trans (quiet_goTo _ _ _)
  · exact .inl ((quiet_close _ _).trans (quiet_goTo _ _ _))
  · exact .inl (quiet_workerMutation _ _ _ _ _)
  · refine .inl ?_
    unfold waitForDrain
    split
    · exact quiet_goTo _ _ _
    · exact ⟨id, rfl, le_rfl, rfl⟩
  · obtain ⟨-, hstep⟩ := ite_none_right_eq_some.mp hstep
    exact .inl (some.inj hstep ▸ quiet_goTo _ _ _)
  · refine .inl ?_
    unfold checkPhase
    split <;> exact quiet_goTo _ _ _
  · refine .inl ?_
    unfold inspectGit
    split
    · dsimp only
      split
      · exact quiet_goTo _ _ _
      split
      · exact quiet_goTo _ _ _
      · split <;> exact quiet_goTo _ _ _
    · exact quiet_goTo _ _ _
  · exact .inl (quiet_workerMutation _ _ _ _ _)
  · exact .inr ⟨⟨_, rfl⟩, quiet_of_eq rfl rfl rfl rfl⟩
  · exact .inr ⟨⟨_, rfl⟩, quiet_of_eq rfl rfl rfl rfl⟩
  · refine .inl ?_
    unfold cleanupTemps
    split <;> exact quiet_of_eq rfl rfl rfl rfl
  · exact .inl (quiet_of_eq rfl rfl rfl rfl)
  · exact .inl (quiet_workerMutation _ _ _ _ _)
  · exact .inl (quiet_finalize _ _ _ _ _)
  · exact .inl ((quiet_mutateDurably _ _ _).trans (quiet_goTo _ _ _))
  · exact .inl ⟨id, rfl, le_rfl, rfl⟩
  · cases hstep

/-- A step is quiet, or grants an admission at an open barrier, or removes the repository, or
restarts the server. -/
lemma step_cases (hstep : s.step vaultId dateParse label = some s') :
    Quiet s s' ∨ (s.barrier.closing = false ∧ s'.git = s.git) ∨
      ((∃ (i : Nat) (present : Bool), s.workers[i]? = some (WorkerStage.removeGit present)) ∧
        Quiet s { s' with git := s.git }) ∨
      (label = .restart ∧ s' = s.restart vaultId) := by
  cases label with
  | acquireAdmission =>
    cases hstep
    unfold acquireAdmission
    split
    · exact .inl (.refl s)
    · exact .inl (quiet_of_eq rfl rfl rfl rfl)
  | readRecord i =>
    obtain ⟨-, ⟨⟩⟩ := ite_none_right_eq_some.mp hstep
    unfold readRecord
    split <;> exact .inl (quiet_of_eq rfl rfl rfl rfl)
  | settleAdmission i =>
    rw [step] at hstep
    split at hstep
    · cases hstep
      unfold settleAdmission
      dsimp only
      split
      · exact .inl (quiet_of_eq rfl rfl rfl rfl)
      rename_i hopen
      refine .inr (.inl ⟨?_, rfl⟩)
      cases hcls : s.barrier.closing with
      | false => rfl
      | true => simp [hcls] at hopen
    · cases hstep
  | release admission => exact .inl (some.inj hstep ▸ quiet_release s admission)
  | beginDeletion ownerUserId confirmation =>
    obtain ⟨-, hstep⟩ := ite_none_right_eq_some.mp hstep
    exact .inl (some.inj hstep ▸ quiet_of_eq rfl rfl rfl rfl)
  | decideDeletion requestedAt =>
    rw [step] at hstep
    split at hstep
    · exact .inl (some.inj hstep ▸ quiet_decideDeletion s _ _ _ _ _)
    · cases hstep
  | acceptDeletion write =>
    rw [step] at hstep
    split at hstep
    · exact .inl (some.inj hstep ▸ quiet_acceptDeletion s _ _ _ _)
    · cases hstep
  | reconcile =>
    obtain ⟨-, hstep⟩ := ite_none_right_eq_some.mp hstep
    exact .inl (some.inj hstep ▸ quiet_reconcile s _)
  | commitReconciliation i write =>
    obtain ⟨requestedAt, -, rfl⟩ := map_eq_some_iff.mp hstep
    exact .inl (quiet_commitReconciliation s _ _ _ _)
  | expireReceipts now write => exact .inl (some.inj hstep ▸ quiet_mutateDurably s _ _)
  | startWorker => exact .inl (some.inj hstep ▸ quiet_startWorker s)
  | worker i event =>
    rw [step] at hstep
    split at hstep
    · rename_i stage hi
      rcases quiet_workerStep hstep with hquiet | ⟨⟨present, rfl⟩, hquiet⟩
      · exact .inl hquiet
      · exact .inr (.inr (.inl ⟨⟨i, present, hi⟩, hquiet⟩))
    · cases hstep
  | otherMutation db write =>
    obtain ⟨-, hstep⟩ := ite_none_right_eq_some.mp hstep
    exact .inl (some.inj hstep ▸ quiet_mutateDurably s _ _)
  | storeFails | close =>
    exact .inl (some.inj hstep ▸ quiet_of_eq rfl rfl rfl rfl)
  | cleanupPersistenceTemps =>
    obtain ⟨-, hstep⟩ := ite_none_left_eq_some.mp hstep
    exact .inl (some.inj hstep ▸ quiet_of_eq rfl rfl rfl rfl)
  | restart => exact .inr (.inr (.inr ⟨rfl, (some.inj hstep).symm⟩))

/-- Along the run, the server only restarts while some record of the deletion is on disk. -/
def Unforgotten (vaultId : String) (dateParse : String → Option Int) (s : State) : List Label → Prop
  | [] => True
  | label :: labels =>
    (label = .restart → s.disk.hasDurableDeletionRecord vaultId = true) ∧
      ∀ next, s.step vaultId dateParse label = some next → Unforgotten vaultId dateParse next labels

lemma closed_step (hcls : s.barrier.closing) (hstep : s.step vaultId dateParse label = some s')
    (hrec : label = .restart → s.disk.hasDurableDeletionRecord vaultId) :
    s'.barrier.closing ∧ s'.granted = s.granted ∧ s'.admissions.length ≤ s.admissions.length := by
  rcases step_cases hstep with hquiet | ⟨hopen, -⟩ | ⟨-, hquiet⟩ | ⟨hlabel, rfl⟩
  · exact ⟨hquiet.closing hcls, hquiet.granted, hquiet.admissions⟩
  · rw [hcls] at hopen
    cases hopen
  · exact ⟨hquiet.closing hcls, hquiet.granted, hquiet.admissions⟩
  · exact ⟨restoreDurableBarriers_closing _ _ (hrec hlabel), rfl, Nat.zero_le _⟩

/-- A closing barrier stays closing, so nothing more is granted. -/
lemma closed_run (hcls : s.barrier.closing) (hrun : s.run vaultId dateParse labels = some s')
    (hunf : Unforgotten vaultId dateParse s labels) :
    s'.granted = s.granted ∧ s'.admissions.length ≤ s.admissions.length := by
  induction labels generalizing s with
  | nil =>
    cases hrun
    exact ⟨rfl, le_rfl⟩
  | cons label labels ih =>
    obtain ⟨next, hstep, hrest⟩ := bind_eq_some_iff.mp hrun
    obtain ⟨hnext, hgrt, hadm⟩ := closed_step hcls hstep hunf.1
    obtain ⟨hgrt', hadm'⟩ := ih hnext hrest (hunf.2 next hstep)
    exact ⟨hgrt'.trans hgrt, hadm'.trans hadm⟩

/-- The repository changes hands only past the wait, with the barrier closing. -/
lemma Inv.git_step (h : Inv vaultId s) (hstep : s.step vaultId dateParse label = some s') (hgit : s'.git ≠ s.git) :
    s.admissions = [] ∧ s'.admissions = [] ∧ s'.barrier.closing := by
  rcases step_cases hstep with hquiet | ⟨-, hsame⟩ | ⟨⟨i, present, hi⟩, hquiet⟩ | ⟨-, rfl⟩
  · exact absurd hquiet.git hgit
  · exact absurd hsame hgit
  · have hstage := h.stageOk hi
    obtain ⟨phase, hphase, -⟩ := hstage.phase _ rfl
    have hzero := h.active.symm.trans (hstage.drained rfl)
    have hnone := hquiet.admissions
    exact ⟨length_eq_zero_iff.mp hzero, length_eq_zero_iff.mp (Nat.le_zero.mp (hzero ▸ hnone)),
      hquiet.closing (h.closing_of_job hphase)⟩
  · exact absurd rfl hgit

def Label.write : Label → Option Write
  | .acceptDeletion write | .commitReconciliation _ write | .expireReceipts _ write
  | .otherMutation _ write | .worker _ (.mutated write _) => some write
  | _ => none

/-- The change made by the step, if any, is not one that replaced the file and then failed to
remove the temporary name. -/
def Label.Clean (label : Label) : Prop :=
  ∀ write ∈ label.write, write.outcome ≠ .publishedUncleaned

/-- As long as the store is certain of it, memory and disk are the same. -/
def Synced (s : State) : Prop := s.durabilityUncertain = false → s.disk = s.memory

/-- A step after which memory and disk still agree, and the durable phase moved on by one at
most. -/
structure Durable (vaultId : String) (s s' : State) : Prop where
  synced : Synced s'
  next : (s.disk.progress vaultId).Next (s'.disk.progress vaultId)

lemma durable_mutateDurably {change : MetadataDb → Option MetadataDb} {write : Write}
    (hsyn : Synced s) (hclean : write.outcome ≠ .publishedUncleaned) (hnext : ∀ db, change s.memory = some db →
      (s.memory.progress vaultId).Next (db.progress vaultId)) :
    Durable vaultId s (s.mutateDurably change write).1 := by
  unfold mutateDurably
  by_cases hop : s.operational
  · rw [if_pos hop]
    have hcert : s.durabilityUncertain = false := by
      simp only [operational, Bool.and_eq_true, Bool.not_eq_true'] at hop
      exact hop.1
    have heq := hsyn hcert
    cases hchg : change s.memory with
    | none => exact ⟨hsyn, .inl rfl⟩
    | some db =>
      have hdb := hnext db hchg
      rw [← heq] at hdb
      cases houtc : write.outcome with
      | committed | committedThenFailed => exact ⟨fun _ => rfl, hdb⟩
      | unpublished uncleaned => exact ⟨fun _ => heq, .inl rfl⟩
      | ambiguous published =>
        cases published with
        | false => exact ⟨fun hd => Bool.noConfusion hd, .inl rfl⟩
        | true => exact ⟨fun hd => Bool.noConfusion hd, hdb⟩
      | publishedUncleaned => exact absurd houtc hclean
  · rw [if_neg hop]
    exact ⟨hsyn, .inl rfl⟩

lemma Durable.congr (h : Durable vaultId s s') (hdisk : s''.disk = s'.disk) (hmem : s''.memory = s'.memory)
    (hcert : s''.durabilityUncertain = false → s'.durabilityUncertain = false) : Durable vaultId s s'' where
  synced hd := hdisk.trans ((h.synced (hcert hd)).trans hmem.symm)
  next := hdisk ▸ h.next

lemma durable_refl (hsyn : Synced s) : Durable vaultId s s := ⟨hsyn, .inl rfl⟩

lemma startWorker_metadata (s : State) : s.startWorker.disk = s.disk ∧
    s.startWorker.memory = s.memory ∧ s.startWorker.durabilityUncertain = s.durabilityUncertain := by
  unfold startWorker
  split <;> exact ⟨rfl, rfl, rfl⟩

section Durability
variable {change : MetadataDb → Option MetadataDb} {write : Write}

lemma durable_workerMutation (hsyn : Synced s)
    (hclean : write.outcome ≠ .publishedUncleaned) (i : Nat) (next : WorkerStage)
    (hnext : ∀ db, change s.memory = some db → (s.memory.progress vaultId).Next (db.progress vaultId)) :
    Durable vaultId s (s.workerMutation i change write next) :=
  (durable_mutateDurably hsyn hclean hnext).congr rfl rfl id

lemma durable_setPhase (hsyn : Synced s) (hclean : write.outcome ≠ .publishedUncleaned)
    (i : Nat) (next : WorkerStage) {old new : DeletionPhase}
    (hold : s.memory.progress vaultId = .job old) (hnext : (Progress.job old).Next (.job new)) :
    Durable vaultId s (s.workerMutation i
      (fun db => some (DeletionRecords.setPhase db vaultId new none)) write next) := by
  refine durable_workerMutation hsyn hclean i next fun db hdb => ?_
  cases hdb
  rw [progress_setPhase hold, hold]
  exact hnext

/-- Each change of phase starts from the phase before it, or repeats the last one. -/
lemma Inv.durable_workerStep (h : Inv vaultId s) (hsyn : Synced s)
    (hi : s.workers[i]? = some stage) (hclean : (Label.worker i event).Clean)
    (hstep : s.workerStep vaultId i stage event = some s') : Durable vaultId s s' := by
  have hsame : Durable vaultId s s := durable_refl hsyn
  have hstage := h.stageOk hi
  unfold State.workerStep at hstep
  split at hstep
  all_goals first
    | obtain rfl := some.inj hstep
    | skip
  all_goals try exact hsame.congr rfl rfl id
  · unfold State.beginIteration
    split
    · exact hsame.congr rfl rfl id
    · split <;> exact hsame.congr rfl rfl id
  · unfold State.chooseWork
    split
    · exact hsame.congr rfl rfl id
    · split <;> exact hsame.congr rfl rfl id
  · obtain ⟨phase, hphase, hlow, hhigh⟩ := hstage.phase _ rfl
    refine durable_setPhase hsyn (hclean _ rfl) i _ hphase ?_
    cases phase <;> simp_all [Progress.rank, Progress.Next]
  · unfold State.waitForDrain
    split <;> exact hsame.congr rfl rfl id
  · obtain ⟨-, hstep⟩ := ite_none_right_eq_some.mp hstep
    exact some.inj hstep ▸ hsame.congr rfl rfl id
  · unfold State.checkPhase
    split <;> exact hsame.congr rfl rfl id
  · unfold State.inspectGit
    split
    · dsimp only
      split
      · exact hsame.congr rfl rfl id
      split
      · exact hsame.congr rfl rfl id
      · split <;> exact hsame.congr rfl rfl id
    · exact hsame.congr rfl rfl id
  · obtain ⟨phase, hphase, hlow, hhigh⟩ := hstage.phase _ rfl
    refine durable_setPhase hsyn (hclean _ rfl) i _ hphase ?_
    cases phase <;> simp_all [Progress.rank, Progress.Next]
  · unfold cleanupTemps
    split <;> exact hsame.congr rfl rfl id
  · obtain ⟨phase, hphase, hlow, hhigh⟩ := hstage.phase _ rfl
    refine durable_setPhase hsyn (hclean _ rfl) i _ hphase ?_
    cases phase <;> simp_all [Progress.rank, Progress.Next]
  · rename_i write now
    obtain ⟨phase, hphase, hlow, hhigh⟩ := hstage.phase _ rfl
    have hmut : Durable vaultId s (s.mutateDurably
        (fun db => (finalizeDb db vaultId now).toOption) write).1 := by
      refine durable_mutateDurably hsyn (hclean _ rfl) fun db hdb => ?_
      cases hok : finalizeDb s.memory vaultId now with
      | error e =>
        rw [hok] at hdb
        cases hdb
      | ok finalized =>
        rw [hok] at hdb
        obtain rfl := some.inj hdb
        have heras := (erased_finalizeDb hphase hok id).progress_eq.1
        cases phase <;> simp_all [Progress.rank, Progress.Next]
    unfold State.finalize
    dsimp only
    split <;> exact hmut.congr rfl rfl id
  · refine (durable_mutateDurably hsyn (hclean _ rfl) fun db hdb => ?_).congr rfl rfl id
    obtain rfl := some.inj hdb
    exact .inl (progress_recordRetry _ _ _ _)
  · cases hstep

end Durability

lemma Inv.durable_step (h : Inv vaultId s) (hsyn : Synced s)
    (hclean : label.Clean) (hstep : s.step vaultId dateParse label = some s') : Durable vaultId s s' := by
  have hsame : Durable vaultId s s := durable_refl hsyn
  cases label with
  | acquireAdmission =>
    cases hstep
    unfold acquireAdmission
    split
    · exact hsame
    · exact hsame.congr rfl rfl id
  | readRecord i =>
    obtain ⟨-, ⟨⟩⟩ := ite_none_right_eq_some.mp hstep
    unfold readRecord
    split <;> exact hsame.congr rfl rfl id
  | settleAdmission i =>
    rw [State.step] at hstep
    split at hstep
    · cases hstep
      unfold State.settleAdmission
      dsimp only
      split <;> exact hsame.congr rfl rfl id
    · cases hstep
  | release admission =>
    cases hstep
    unfold State.release
    split
    · exact hsame.congr rfl rfl id
    · exact hsame
  | beginDeletion ownerUserId confirmation =>
    obtain ⟨-, hstep⟩ := ite_none_right_eq_some.mp hstep
    exact some.inj hstep ▸ hsame.congr rfl rfl id
  | decideDeletion requestedAt =>
    rw [State.step] at hstep
    split at hstep
    · cases hstep
      unfold State.decideDeletion
      have hstart := startWorker_metadata (s.close false)
      split
      · split
        · exact hsame.congr rfl rfl id
        · exact hsame.congr hstart.1 hstart.2.1 (hstart.2.2 ▸ id)
      · split <;> exact hsame.congr rfl rfl id
      · split
        · exact hsame.congr rfl rfl id
        split
        · exact hsame.congr rfl rfl id
        split
        · exact hsame.congr rfl rfl id
        · split <;> exact hsame.congr rfl rfl id
    · cases hstep
  | acceptDeletion write =>
    rw [State.step] at hstep
    split at hstep
    · rename_i ownerUserId requestedAt _
      have hmut : Durable vaultId s (s.mutateDurably (fun db =>
          (DeletionRecords.acceptDeletion db vaultId ownerUserId requestedAt).toOption)
          write).1 := by
        refine durable_mutateDurably hsyn (hclean _ rfl) fun db hdb => ?_
        cases hok : DeletionRecords.acceptDeletion s.memory vaultId ownerUserId requestedAt with
        | error e =>
          rw [hok] at hdb
          cases hdb
        | ok accepted =>
          rw [hok] at hdb
          cases hdb
          exact (acceptDeletion_spec h.memoryKept hok).next
      cases hstep
      unfold State.acceptDeletion
      dsimp only
      have hstart := startWorker_metadata (s.mutateDurably (fun db =>
        (DeletionRecords.acceptDeletion db vaultId ownerUserId requestedAt).toOption) write).1
      split
      · exact hmut.congr hstart.1 hstart.2.1 (hstart.2.2 ▸ id)
      · exact hmut.congr rfl rfl id
    · cases hstep
  | reconcile =>
    obtain ⟨-, ⟨⟩⟩ := ite_none_right_eq_some.mp hstep
    unfold State.reconcile
    split
    · exact hsame
    · dsimp only
      split <;> exact hsame.congr rfl rfl id
  | commitReconciliation i write =>
    obtain ⟨requestedAt, -, rfl⟩ := map_eq_some_iff.mp hstep
    have hmut : Durable vaultId s (mutateDurably { s with reconciliations := s.reconciliations.eraseIdx i }
        (fun db => some (reconcileDeletingVaultRow db vaultId requestedAt)) write).1 := by
      have hdrop : Synced { s with reconciliations := s.reconciliations.eraseIdx i } := hsyn
      have hdur : Durable vaultId _ (mutateDurably { s with reconciliations := s.reconciliations.eraseIdx i }
          (fun db => some (reconcileDeletingVaultRow db vaultId requestedAt)) write).1 :=
        durable_mutateDurably hdrop (hclean _ rfl) fun db hdb => by
          cases hdb
          exact (reconcileDeletingVaultRow_spec h.memoryKept requestedAt).next
      exact { hdur with }
    unfold State.commitReconciliation
    dsimp only
    split
    · exact hmut
    · exact hmut.congr rfl rfl id
  | expireReceipts now write =>
    cases hstep
    refine durable_mutateDurably hsyn (hclean _ rfl) fun db hdb => ?_
    cases hdb
    exact (expireReceipts_spec dateParse now h.memoryKept).next
  | startWorker =>
    cases hstep
    have hstart := startWorker_metadata s
    exact hsame.congr hstart.1 hstart.2.1 (hstart.2.2 ▸ id)
  | worker i event =>
    rw [State.step] at hstep
    split at hstep
    · rename_i hi
      exact h.durable_workerStep hsyn hi hclean hstep
    · cases hstep
  | otherMutation db write =>
    obtain ⟨hkeeps, ⟨⟩⟩ := ite_none_right_eq_some.mp hstep
    refine durable_mutateDurably hsyn (hclean _ rfl) fun db' hdb => ?_
    cases hdb
    exact (keepsDeletion_spec h.memoryKept hkeeps).1.next
  | storeFails uncertain uncleaned =>
    cases hstep
    refine hsame.congr rfl rfl fun hcert => ?_
    exact (Bool.or_eq_false_iff.mp hcert).1
  | cleanupPersistenceTemps =>
    obtain ⟨-, hstep⟩ := ite_none_left_eq_some.mp hstep
    exact some.inj hstep ▸ hsame.congr rfl rfl id
  | close => exact some.inj hstep ▸ hsame.congr rfl rfl id
  | restart =>
    cases hstep
    exact ⟨fun _ => rfl, .inl rfl⟩

lemma Inv.durable_run (h : Inv vaultId s) (hsyn : Synced s)
    (hclean : ∀ label ∈ labels, label.Clean) (hrun : s.run vaultId dateParse labels = some s') :
    Synced s' ∧ (s.disk.progress vaultId).rank ≤ (s'.disk.progress vaultId).rank := by
  induction labels generalizing s with
  | nil =>
    cases hrun
    exact ⟨hsyn, le_rfl⟩
  | cons label labels ih =>
    obtain ⟨next, hstep, hrest⟩ := bind_eq_some_iff.mp hrun
    obtain ⟨hlabel, hlab⟩ := forall_mem_cons.mp hclean
    have hnext := h.durable_step hsyn hlabel hstep
    obtain ⟨hfinal, hle⟩ := ih (h.step hstep) hnext.synced hlab hrest
    exact ⟨hfinal, hnext.next.le.trans hle⟩

/-- Vault deletion safety, at any state of any run. No admission is granted once a record of the
deletion is on disk, as long as no restart finds it forgotten. Git is touched only without
unreleased admissions, and there are none after that either. While no change of the metadata
leaves its temporary name behind, the durable progress moves forward one phase at a time. There
is one worker at most. What finalising writes holds nothing of the vault but its receipt. -/
theorem vault_deletion_safety {db : MetadataDb} {git : GitRepository} (hkept : db.Kept vaultId)
    {before after : List Label} {s s' : State}
    (hbefore : (start db vaultId git).run vaultId dateParse before = some s)
    (hafter : s.run vaultId dateParse after = some s') :
    (s.disk.hasDurableDeletionRecord vaultId = true → Unforgotten vaultId dateParse s after →
      s'.granted = s.granted) ∧ (∀ label next, s.step vaultId dateParse label = some next → next.git ≠ s.git →
      s.admissions = [] ∧ next.admissions = [] ∧ ∀ labels last, next.run vaultId dateParse labels = some last →
        Unforgotten vaultId dateParse next labels → last.admissions = []) ∧
    ((∀ label ∈ before ++ after, label.Clean) → (s.disk.progress vaultId).rank ≤ (s'.disk.progress vaultId).rank ∧
      ∀ label next, label.Clean → s.step vaultId dateParse label = some next →
        (s.disk.progress vaultId).Next (next.disk.progress vaultId)) ∧ s.workers.length ≤ 1 ∧
    (∀ i write now next, s.workers[i]? = some WorkerStage.finalize →
      s.step vaultId dateParse (.worker i (.mutated write now)) = some next →
      (next.memory = s.memory ∨ Erased s.memory next.memory vaultId) ∧
      (next.disk = s.disk ∨ Erased s.memory next.disk vaultId)) := by
  have hinv := (inv_start db vaultId git hkept).run hbefore
  refine ⟨fun hrec hunf => ?_, fun label next hstep hgit => ?_, fun hclean => ?_,
    hinv.single, fun i write now next hi hstep => ?_⟩
  · exact (closed_run (hinv.diskRecord hrec) hafter hunf).1
  · obtain ⟨hnone, hnext, hcls⟩ := hinv.git_step hstep hgit
    refine ⟨hnone, hnext, fun labels last hrun hunf => ?_⟩
    have hle := (closed_run hcls hrun hunf).2
    rw [hnext] at hle
    exact length_eq_zero_iff.mp (Nat.le_zero.mp hle)
  · have hstart : Synced (start db vaultId git) := fun _ => rfl
    obtain ⟨hsyn, -⟩ := (inv_start db vaultId git hkept).durable_run hstart
      (fun label hmem => hclean label (mem_append_left _ hmem)) hbefore
    have hafter := hinv.durable_run hsyn (fun label hmem => hclean label (mem_append_right _ hmem)) hafter
    exact ⟨hafter.2, fun label next hlabel hstep =>
      (hinv.durable_step hsyn hlabel hstep).next⟩
  · rw [step, hi] at hstep
    cases hstep
    exact (hinv.finalize hi write now).2

namespace Sample

def db : MetadataDb where
  vaults := [⟨"vlt_1", "usr_1", .active, "2026-01-01T00:00:00.000Z"⟩]

def readDate (text : String) : Option Int := (IsoTimestamps.dateParse text).map Int.ofNat

def write (outcome : MutationOutcome) : Write := ⟨outcome, id⟩

def changed (now : String) : Label := .worker 0 (.mutated (write .committed) now)

/-- From the request to the receipt, without failures. -/
def deletion : List Label :=
  [.beginDeletion "usr_1" (some "DELETE vlt_1"), .decideDeletion "2026-01-02T00:00:00.000Z",
    .acceptDeletion (write .committed)] ++
  [.worker 0 .proceed, .worker 0 .proceed, changed "", .worker 0 .proceed, .worker 0 .proceed,
    .worker 0 .proceed, .worker 0 .proceed, .worker 0 (.inspected true true), changed "",
    .worker 0 .proceed, .worker 0 .proceed, .worker 0 .proceed]

def finishing : List Label :=
  [changed "", .worker 0 .proceed, changed "2026-01-02T00:00:01.000Z", .worker 0 .proceed]

/-- The receipt expires, the server restarts and somebody asks for the vault. -/
def forgetting : List Label :=
  [.expireReceipts 1800000000000 (write .committed), .restart, .acquireAdmission, .readRecord 0, .settleAdmission 0]

/-- The change to the last phase is published, its temporary name stays, the rest of the server
cleans up, and the worker records a retry of the phase it knows. -/
def uncleaned : List Label :=
  [.worker 0 (.mutated (write .publishedUncleaned) ""), .cleanupPersistenceTemps,
    .worker 0 (.mutated (write .committed) "")]

def runFrom (labels : List Label) : Option State :=
  (start db "vlt_1" .intact).run "vlt_1" readDate labels

end Sample

/-- A worker that has removed the repository, and a server restarted then. -/
theorem vault_deletion_safety_sample : Sample.db.Kept "vlt_1" ∧
    ∃ s, Sample.runFrom Sample.deletion = some s ∧ s.git = .absent ∧ s.workers.length ≤ 1 ∧
      (s.restart "vlt_1").granted = s.granted := by
  have hkept : Sample.db.Kept "vlt_1" := fun hrcp => absurd hrcp (by decide)
  have hrun : (Sample.runFrom Sample.deletion).any (fun s =>
      s.disk.hasDurableDeletionRecord "vlt_1" && s.git = .absent) = true := by decide +kernel
  obtain ⟨s, hs, hstate⟩ := (any_eq_true _ _).mp hrun
  simp only [Bool.and_eq_true, decide_eq_true_eq] at hstate
  obtain ⟨hrec, hgit⟩ := hstate
  have hrest : s.run "vlt_1" Sample.readDate [.restart] = some (s.restart "vlt_1") := rfl
  obtain ⟨hgrt, -, -, hwkrs, -⟩ := vault_deletion_safety hkept hs hrest
  exact ⟨hkept, s, hs, hgit, hwkrs, hgrt hrec ⟨fun _ => hrec, fun _ _ => trivial⟩⟩

/-- Once the receipt has expired, a restarted server grants admissions again; and a change whose
temporary name stays behind lets the durable phase fall back. -/
theorem forgotten_vault_admitted : ((Sample.runFrom (Sample.deletion ++ Sample.finishing)).map fun s =>
      (s.disk.hasDurableDeletionRecord "vlt_1", s.git, s.granted)) = some (true, .absent, 0) ∧
    ((Sample.runFrom (Sample.deletion ++ Sample.finishing ++ Sample.forgetting)).map fun s =>
      (s.granted, s.admissions)) = some (1, [0]) ∧
    ((Sample.runFrom (Sample.deletion ++ Sample.uncleaned.take 1)).map fun s =>
      s.disk.progress "vlt_1") = some (.job .finalizing) ∧
    ((Sample.runFrom (Sample.deletion ++ Sample.uncleaned)).map fun s =>
      s.disk.progress "vlt_1") = some (.job .erasing) := by
  decide +kernel

end VaultDeletion
