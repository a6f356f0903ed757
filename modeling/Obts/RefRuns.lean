import Obts.RefMoves

/-!
# Runs of ref moves

What holds in every state of a run, whatever fails: the operation that holds the lock has its
row, which says what the operation is about to do, and nothing of it goes on once the store or
the repository is uncertain.
-/
namespace RefMoves

open Metadata InsertionOrder Option List State

/-- Operations that build their target while they hold the lock. -/
def Activity.isBuilder (a : Activity) : Bool :=
  a.type = .serverMerge || a.type = .conflictResolve || a.type = .noteRestore

/-- The row of the operation that holds the lock, by its stage. -/
def Matches (a : Activity) (operation : Operation) : Prop :=
  match a.stage with
  | .started => operation.status = .started ∧ a.type = .devicePush ∧ Shape operation a.ref a.target
  | .divergent => operation.status = .prepared ∧ a.type = .devicePush ∧
      Shape operation a.ref a.target ∧ expectedRef operation a.ref = a.expected
  | .prepared => operation.status = .prepared ∧ a.target = none ∧ Shape operation a.ref none ∧
      a.ref = .main ∧ operation.manifest.targetRefs = [] ∧ a.isBuilder = true ∧
      expectedRef operation a.ref = a.expected
  | .targeted | .moved => operation.status = .prepared ∧ Shape operation a.ref a.target ∧
      expectedRef operation a.ref = a.expected ∧ a.target.isSome = true
  | .failed _ => (Shape operation a.ref a.target ∨
        Shape operation a.ref none ∧ a.isBuilder = true ∧ a.target ≠ a.expected) ∧
      (operation.status = .prepared → expectedRef operation a.ref = a.expected) ∧
      (a.type ≠ .devicePush → operation.status = .prepared)

structure Busy (db : Db) (a : Activity) : Prop where
  row : ∃ operation ∈ db.operations, operation.operationId = a.operationId ∧
    operation.type = a.type ∧ Matches a operation
  expected : a.type ≠ .devicePush → a.expected.isSome = true

structure Linked (s : State) : Prop where
  rows : Rows s.db
  starting : s.startup ≠ [] → s.activity = none ∧ s.gitUncertain = false
  halted : s.gitUncertain = true → ∀ a, s.activity = some a → ∃ durability, a.stage = .failed durability
  stopped : s.storeUncertain = true → ∀ a, s.activity = some a →
    a.stage = .moved ∨ ∃ durability, a.stage = .failed durability
  busy : s.storeUncertain = false → ∀ a, s.activity = some a → Busy s.db a
  /-- A merge whose target is not recorded has not moved main from where it found it. -/
  unmoved : ∀ a, s.activity = some a → a.type = .serverMerge →
    (∃ operation ∈ s.db.operations, operation.operationId = a.operationId ∧
      Shape operation a.ref none) → a.ref = .main ∧ s.refs .main = a.expected

section Mutations
variable {s : State} {outcome : Outcome}

/-- How a mutation may end. -/
lemma mutate_cases (s : State) (outcome : Outcome) (f : Db → Db) :
    (s.mutate outcome f = ({ s with db := f s.db }, true) ∧ s.storeUncertain = false) ∨
      s.mutate outcome f = (s, false) ∨
      ∃ db, (db = f s.db ∨ db = s.db) ∧ s.storeUncertain = false ∧
        s.mutate outcome f = ({ s with db, storeUncertain := true }, false) := by
  unfold mutate
  split
  · exact .inr (.inl rfl)
  rename_i hstore
  rw [Bool.not_eq_true] at hstore
  cases outcome with
  | persisted => exact .inl ⟨rfl, hstore⟩
  | failed => exact .inr (.inl rfl)
  | uncertain published =>
    refine .inr (.inr ⟨if published then f s.db else s.db, ?_, hstore, rfl⟩)
    cases published
    · exact .inr rfl
    · exact .inl rfl

lemma begin_cases (s : State) (outcome : Outcome) (row : Operation) (a : Activity) : (s.begin outcome row a
        = { s with db := { s.db with operations := s.db.operations ++ [row] }, activity := some a } ∧
      s.storeUncertain = false) ∨
      s.begin outcome row a = s ∨
      ∃ db, (db = { s.db with operations := s.db.operations ++ [row] } ∨ db = s.db) ∧
        s.begin outcome row a = { s with db, storeUncertain := true } := by
  unfold begin
  rcases mutate_cases s outcome fun db => { db with operations := db.operations ++ [row] } with
    ⟨h, hstore⟩ | h | ⟨db, hdb, -, h⟩ <;> rw [h]
  · exact .inl ⟨rfl, hstore⟩
  · exact .inr (.inl rfl)
  · exact .inr (.inr ⟨db, hdb, rfl⟩)

lemma advance_cases (s : State) (outcome : Outcome) (a : Activity) (stage : Stage) (f : Db → Db) :
    (s.advance outcome a stage f = { s with db := f s.db, activity := some { a with stage } } ∧
      s.storeUncertain = false) ∨
      s.advance outcome a stage f = s.atStage a (.failed false) ∨
      ∃ db, (db = f s.db ∨ db = s.db) ∧ s.advance outcome a stage f
        = { s.atStage a (.failed false) with db, storeUncertain := true } := by
  unfold advance
  rcases mutate_cases s outcome f with ⟨h, hstore⟩ | h | ⟨db, hdb, hstore, h⟩ <;> rw [h]
  · exact .inl ⟨rfl, hstore⟩
  · exact .inr (.inl rfl)
  · exact .inr (.inr ⟨db, hdb, rfl⟩)

/-- The activity that is left when the last mutation of an operation throws. -/
def escaped (a : Activity) : Option Activity :=
  if a.type = .devicePush then some { a with stage := .failed false } else none

lemma escape_eq (s : State) (a : Activity) : s.escape a = { s with activity := escaped a } := by
  unfold escape escaped
  split
  · rfl
  · rfl

lemma finish_cases (s : State) (outcome : Outcome) (a : Activity) (f : Db → Option Db) :
    (∃ db, f s.db = some db ∧ s.finish outcome a f = { s with db, activity := none } ∧ s.storeUncertain = false) ∨
      s.finish outcome a f = { s with activity := escaped a } ∨
      ∃ db, (f s.db = some db ∨ db = s.db) ∧ s.storeUncertain = false ∧
        s.finish outcome a f = { s with db, storeUncertain := true, activity := escaped a } := by
  unfold finish
  cases hf : f s.db with
  | none => exact .inr (.inl (escape_eq s a))
  | some db' =>
    simp only
    rcases mutate_cases s outcome fun _ => db' with ⟨h, hstore⟩ | h | ⟨db, hdb, hstore, h⟩ <;> rw [h]
    · exact .inl ⟨db', rfl, rfl, hstore⟩
    · exact .inr (.inl (escape_eq s a))
    · refine .inr (.inr ⟨db, hdb.imp (fun heq => congrArg some heq.symm) id, hstore, ?_⟩)
      simp [escape_eq]

end Mutations

section Kept
variable {git : Git} {s s' : State} {a a' : Activity} {operation row : Operation} {db : Db}
  {operationId : String} {durability : Bool} {stage : Stage} {f : Db → Db}

lemma Linked.idle (h : Linked s) (hrows : Rows s'.db) (hact : s'.activity = none)
    (hstrt : s'.startup ≠ [] → s.startup ≠ []) (hgit : s'.gitUncertain = s.gitUncertain) : Linked s' := by
  refine ⟨hrows, fun hne => ⟨hact, ?_⟩, fun _ a ha => ?_, fun _ a ha => ?_, fun _ a ha => ?_, fun a ha => ?_⟩
  · rw [hgit]
    exact (h.starting (hstrt hne)).2
  all_goals
    rw [hact] at ha
    cases ha

lemma Linked.not_starting (h : Linked s) (ha : s.activity = some a) : s.startup = [] := by
  by_contra hne
  rw [(h.starting hne).1] at ha
  cases ha

/-- The operation goes on at another stage. -/
lemma linked_of_activity (hstrt : s'.startup = []) (hrows : Rows s'.db) (hact : s'.activity = some a)
    (hhalt : s'.gitUncertain → ∃ durability, a.stage = .failed durability)
    (hstop : s'.storeUncertain → a.stage = .moved ∨ ∃ durability, a.stage = .failed durability)
    (hbusy : s'.storeUncertain = false → Busy s'.db a)
    (hunm : a.type = .serverMerge → (∃ operation ∈ s'.db.operations,
      operation.operationId = a.operationId ∧ Shape operation a.ref none) →
      a.ref = .main ∧ s'.refs .main = a.expected) : Linked s' := by
  have hone : ∀ a', s'.activity = some a' → a' = a := fun a' ha' =>
    (Option.some.inj (hact.symm.trans ha')).symm
  refine ⟨hrows, fun hne => ?_, fun hgit a' ha' => ?_, fun hstore a' ha' => ?_,
    fun hstore a' ha' => ?_, fun a' ha' => ?_⟩
  · exact absurd hstrt hne
  · obtain rfl := hone a' ha'
    exact hhalt hgit
  · obtain rfl := hone a' ha'
    exact hstop hstore
  · obtain rfl := hone a' ha'
    exact hbusy hstore
  · obtain rfl := hone a' ha'
    exact hunm

lemma Matches.fail (h : Matches a operation) (durability : Bool) :
    Matches { a with stage := .failed durability } operation := by
  unfold Matches at h ⊢
  cases hstage : a.stage <;> simp only [hstage] at h ⊢
  case started =>
    refine ⟨.inl h.2.2, fun hprep => ?_, fun hne => absurd h.2.1 hne⟩
    rw [h.1] at hprep
    cases hprep
  case divergent => exact ⟨.inl h.2.2.1, fun _ => h.2.2.2, fun _ => h.1⟩
  case prepared =>
    obtain ⟨hstat, htgt, hshape, -, -, -, hexp⟩ := h
    rw [htgt]
    exact ⟨.inl hshape, fun _ => hexp, fun _ => hstat⟩
  case targeted => exact ⟨.inl h.2.1, fun _ => h.2.2.1, fun _ => h.1⟩
  case moved => exact ⟨.inl h.2.1, fun _ => h.2.2.1, fun _ => h.1⟩
  case failed => exact h

lemma Busy.fail (h : Busy db a) (durability : Bool) : Busy db { a with stage := .failed durability } := by
  obtain ⟨operation, hmem, hid, htype, hmat⟩ := h.row
  exact ⟨⟨operation, hmem, hid, htype, hmat.fail durability⟩, h.expected⟩

/-- An exception on its way to the handler. -/
lemma Linked.failing (h : Linked s) (ha : s.activity = some a) (durability : Bool) :
    Linked (s.atStage a (.failed durability)) :=
  linked_of_activity (h.not_starting ha) h.rows rfl (fun _ => ⟨durability, rfl⟩)
    (fun _ => .inr ⟨durability, rfl⟩) (fun hstore => (h.busy hstore a ha).fail durability)
    (h.unmoved a ha)

lemma Linked.leave (h : Linked s) : Linked s.leave :=
  h.idle h.rows rfl id rfl

/-- A mutation that throws leaves the operation to its handler, if it has one. -/
lemma Linked.escaped (h : Linked s) (ha : s.activity = some a) : Linked { s with activity := escaped a } := by
  unfold RefMoves.escaped
  split
  · exact h.failing ha false
  · exact h.leave

lemma Linked.uncertain (h : Linked s) (hrows : Rows db) (activity : Option Activity)
    (hstrt : s.startup ≠ [] → activity = none)
    (hact : ∀ a, activity = some a → ∃ durability, a.stage = .failed durability)
    (hunm : ∀ a, activity = some a → a.type = .serverMerge → (∃ operation ∈ db.operations,
      operation.operationId = a.operationId ∧ Shape operation a.ref none) →
      a.ref = .main ∧ s.refs .main = a.expected) : Linked { s with db, storeUncertain := true, activity } :=
  ⟨hrows, fun hne => ⟨hstrt hne, (h.starting hne).2⟩, fun _ a ha => hact a ha,
    fun _ a ha => .inr (hact a ha), (fun hstore => by cases hstore), hunm⟩

lemma escaped_failed (h : RefMoves.escaped a = some a') :
    a'.type = .devicePush ∧ ∃ durability, a'.stage = .failed durability := by
  obtain ⟨hguard, ⟨⟩⟩ := ite_none_right_eq_some.mp h
  exact ⟨‹_›, false, rfl⟩

lemma Linked.finish (h : Linked s) (ha : s.activity = some a) {f : Db → Option Db}
    (hf : s.storeUncertain = false → ∀ db, f s.db = some db → Rows db) (outcome : Outcome) :
    Linked (s.finish outcome a f) := by
  rcases finish_cases s outcome a f with ⟨db, hdb, heq, hstore⟩ | heq | ⟨db, hdb, hstore, heq⟩ <;>
    rw [heq]
  · exact h.idle (hf hstore db hdb) rfl id rfl
  · exact h.escaped ha
  refine h.uncertain ?_ _ (fun hne => ?_) (fun a' ha' => (escaped_failed ha').2)
    fun a' ha' hmerge => ?_
  · rcases hdb with hdb | rfl
    · exact hf hstore db hdb
    · exact h.rows
  · exact absurd (h.not_starting ha) hne
  · rw [(escaped_failed ha').1] at hmerge
    cases hmerge

lemma isIdle_iff : s.isIdle operationId ↔
    s.activity = none ∧ s.startup = [] ∧ s.storeUncertain = false ∧ s.gitUncertain = false ∧
      operationId ∉ s.db.operations.map Operation.operationId := by
  simp [isIdle, and_assoc]

lemma Linked.begin (h : Linked s) {ref : Ref} {target : Option String}
    (hidle : s.isIdle row.operationId) (hshape : Shape row ref target) (hknown : Known s.db row)
    (hid : a.operationId = row.operationId) (htype : row.type = a.type) (hmat : Matches a row)
    (hexp : a.type ≠ .devicePush → a.expected.isSome)
    (hunm : a.type = .serverMerge → a.ref = .main ∧ s.refs .main = a.expected)
    (outcome : Outcome) : Linked (s.begin outcome row a) := by
  obtain ⟨hact, hstrt, hstore, hgit, hfresh⟩ := isIdle_iff.mp hidle
  have hrows := h.rows.append hfresh hshape hknown
  rcases begin_cases s outcome row a with ⟨heq, -⟩ | heq | ⟨db, hdb, heq⟩ <;> rw [heq]
  · refine linked_of_activity (a := a) hstrt ?_ rfl (fun hgit' => ?_) (fun hstore' => ?_)
      (fun _ => ?_) fun hmerge _ => hunm hmerge
    · exact hrows
    · rw [show s.gitUncertain = true from hgit'] at hgit
      cases hgit
    · rw [show s.storeUncertain = true from hstore'] at hstore
      cases hstore
    · exact ⟨⟨row, mem_append_right _ (mem_singleton.mpr rfl), hid.symm, htype, hmat⟩, hexp⟩
  · exact h
  · refine ⟨?_, fun hne => absurd hstrt hne, fun _ a ha => ?_, fun _ a ha => ?_,
      (fun hstore' => by cases hstore'), fun a ha => ?_⟩
    · rcases hdb with rfl | rfl
      · exact hrows
      · exact h.rows
    all_goals
      rw [show s.activity = some a from ha] at hact
      cases hact

lemma Linked.not_uncertain (h : Linked s) (ha : s.activity = some a)
    (hstage : ∀ durability, a.stage ≠ .failed durability) : s.gitUncertain = false := by
  rw [← Bool.not_eq_true]
  intro hgit
  obtain ⟨durability, hfail⟩ := h.halted hgit a ha
  exact hstage durability hfail

lemma Linked.not_stopped (h : Linked s) (ha : s.activity = some a) (hmoved : a.stage ≠ .moved)
    (hstage : ∀ durability, a.stage ≠ .failed durability) : s.storeUncertain = false := by
  rw [← Bool.not_eq_true]
  intro hstore
  rcases h.stopped hstore a ha with h | ⟨durability, hfail⟩
  · exact hmoved h
  · exact hstage durability hfail

lemma Linked.advance (h : Linked s) (ha : s.activity = some a)
    (hgit : s.gitUncertain = false) (hrows : Rows (f s.db))
    (hnew : Busy (f s.db) { a' with stage }) (hold : Busy s.db { a' with stage := .failed false })
    (hunm : ∀ db, db = f s.db ∨ db = s.db → a'.type = .serverMerge →
      (∃ operation ∈ db.operations, operation.operationId = a'.operationId ∧
        Shape operation a'.ref none) → a'.ref = .main ∧ s.refs .main = a'.expected)
    (outcome : Outcome) : Linked (s.advance outcome a' stage f) := by
  have hstrt := h.not_starting ha
  have hnot : ∀ P : Prop, s.gitUncertain = true → P := fun P htrue => by
    rw [hgit] at htrue
    cases htrue
  rcases advance_cases s outcome a' stage f with ⟨heq, hstore⟩ | heq | ⟨db, hdb, heq⟩ <;> rw [heq]
  · refine linked_of_activity (a := { a' with stage }) hstrt ?_ rfl (hnot _)
      (fun hstore' => ?_) (fun _ => hnew) (hunm _ (.inl rfl))
    · exact hrows
    · rw [show s.storeUncertain = true from hstore'] at hstore
      cases hstore
  · exact linked_of_activity (a := { a' with stage := .failed false }) hstrt h.rows rfl
      (hnot _) (fun _ => .inr ⟨false, rfl⟩) (fun _ => hold) (hunm _ (.inr rfl))
  · refine h.uncertain ?_ (some { a' with stage := .failed false })
      (fun hne => absurd hstrt hne) (fun a ha => ?_) fun a ha => ?_
    · rcases hdb with rfl | rfl
      · exact hrows
      · exact h.rows
    · cases ha
      exact ⟨false, rfl⟩
    · cases ha
      exact hunm db hdb

lemma mem_setOperation {f : Operation → Operation} (hmem : operation ∈ db.operations)
    (hid : operation.operationId = operationId) : f operation ∈ (db.setOperation operationId f).operations :=
  mem_map.mpr ⟨operation, hmem, if_pos hid⟩

/-- A push whose device ref was read is prepared. -/
lemma Linked.preparePush (h : Linked s) (ha : s.activity = some a) (hstrt : a.stage = .started)
    (htgt : a.target.isSome) (hstage : stage = .divergent ∨ stage = .targeted) (outcome : Outcome) :
    Linked (s.advance outcome { a with expected := s.refs a.ref } stage fun db =>
      db.setOperation a.operationId fun operation =>
        { operation with status := .prepared, expectedRefs := [(a.ref, s.refs a.ref)] }) := by
  have hnot : ∀ durability, a.stage ≠ .failed durability := by
    intro durability
    rw [hstrt]
    exact Stage.noConfusion
  have hstore := h.not_stopped ha (by rw [hstrt]; exact Stage.noConfusion) hnot
  obtain ⟨operation, hmem, hid, htype, hmat⟩ := (h.busy hstore a ha).row
  unfold Matches at hmat
  simp only [hstrt] at hmat
  obtain ⟨hstat, hpush, hshape⟩ := hmat
  have hkind := hshape.kind
  rw [htype, hpush] at hkind
  have hshape' : Shape { operation with
      status := .prepared, expectedRefs := [(a.ref, s.refs a.ref)] } a.ref a.target := by
    refine { hshape with kind := ?_ }
    simp only [htype, hpush]
    exact hkind
  have hexp : expectedRef { operation with
      status := .prepared, expectedRefs := [(a.ref, s.refs a.ref)] } a.ref = s.refs a.ref := by
    simp [expectedRef, valueAt]
  refine h.advance ha (h.not_uncertain ha hnot) ?_ ?_ ?_ (fun _ _ hmerge => ?_) outcome
  · refine h.rows.setOperation (fun _ => rfl) fun other hother hid' => ?_
    obtain rfl := h.rows.eq_of_id hother hmem (hid'.trans hid.symm)
    exact ⟨⟨a.ref, a.target, hshape'⟩, ⟨(h.rows.known other hother).device, fun hrsv => by
      rw [show other.type = .conflictResolve from hrsv] at htype
      rw [hpush] at htype
      cases htype⟩⟩
  · refine ⟨⟨_, mem_setOperation hmem hid, hid, htype, ?_⟩, fun hne => absurd hpush hne⟩
    rcases hstage with rfl | rfl
    · exact ⟨rfl, hpush, hshape', hexp⟩
    · exact ⟨rfl, hshape', hexp, htgt⟩
  · refine ⟨⟨operation, hmem, hid, htype, .inl hshape, fun hprep => ?_,
      fun hne => absurd hpush hne⟩, fun hne => absurd hpush hne⟩
    rw [hstat] at hprep
    cases hprep
  · rw [show a.type = .serverMerge from hmerge] at hpush
    cases hpush

lemma builds_parent {commit main : String} (h : State.builds git a commit)
    (hexp : a.expected = some main) : main ∈ git.parents commit := by
  unfold builds at h
  rw [hexp] at h
  split at h
  · rename_i main' second heq _
    cases heq
    simp only [Bool.or_eq_true, Bool.and_eq_true, decide_eq_true_eq] at h
    rcases h with hpars | ⟨⟨-, rfl⟩, hpars⟩
    · rw [hpars]
      exact mem_cons_self
    · rw [hpars]
      exact mem_cons_self
  · cases h

/-- The commit that an operation built is recorded as its target. -/
lemma Linked.recordTarget (h : Linked s) (ha : s.activity = some a) (hprep : a.stage = .prepared)
    {commit : String} (hbuil : State.builds git a commit) (outcome : Outcome) :
    Linked (s.recordTarget a commit outcome) := by
  have hnot : ∀ durability, a.stage ≠ .failed durability := by
    intro durability
    rw [hprep]
    exact Stage.noConfusion
  have hstore := h.not_stopped ha (by rw [hprep]; exact Stage.noConfusion) hnot
  have hbusy := h.busy hstore a ha
  obtain ⟨operation, hmem, hid, htype, hmat⟩ := hbusy.row
  unfold Matches at hmat
  simp only [hprep] at hmat
  obtain ⟨hstat, htgt, hshape, href, hman, hbld, hexp⟩ := hmat
  have hpush : a.type ≠ .devicePush := by
    intro hpush
    simp [Activity.isBuilder, hpush] at hbld
  obtain ⟨main, hmain⟩ := isSome_iff_exists.mp (hbusy.expected hpush)
  have hne : some commit ≠ a.expected := by
    rw [hmain]
    intro heq
    exact git.parent_ne (builds_parent hbuil hmain) (Option.some.inj heq).symm
  set manifest := if a.type = .noteRestore then operation.manifest
    else { operation.manifest with targetRefs := [(Ref.main, some commit)] } with hset
  have hkind := hshape.kind
  have hshape' : Shape { operation with
      targetRefs := [(.main, some commit)], targetCommit := some commit, manifest }
      a.ref (some commit) := by
    rw [href] at hkind ⊢
    refine ⟨rfl, ?_, rfl, ?_⟩
    · rw [hset]
      split
      · exact .inl hman
      · exact .inr rfl
    · cases hcase : operation.type <;> simp only [hcase] at hkind ⊢
      case devicePush => exact absurd (htype.symm.trans hcase) hpush
      case conflictRefresh => cases hkind
      all_goals exact absurd hkind.2.1 (by simp)
  refine h.advance ha (h.not_uncertain ha hnot) ?_ ?_ ?_ (fun db hdb hmerge hnone => ?_) outcome
  · refine h.rows.setOperation (fun _ => rfl) fun other hother hid' => ?_
    obtain rfl := h.rows.eq_of_id hother hmem (hid'.trans hid.symm)
    refine ⟨⟨a.ref, some commit, hshape'⟩, (h.rows.known other hother).device, fun hrsv => ?_⟩
    obtain ⟨hconf, hdev⟩ := (h.rows.known other hother).conflict hrsv
    refine ⟨?_, hdev⟩
    split
    · exact hconf
    · exact hconf
  · exact ⟨⟨_, mem_setOperation hmem hid, hid, htype, hstat, hshape', hexp, rfl⟩, fun _ => hbusy.expected hpush⟩
  · exact ⟨⟨operation, hmem, hid, htype, .inr ⟨hshape, hbld, hne⟩, fun _ => hexp,
      fun _ => hstat⟩, fun _ => hbusy.expected hpush⟩
  · exact h.unmoved a ha hmerge ⟨operation, hmem, hid, hshape⟩

lemma Linked.updateRef (h : Linked s) (ha : s.activity = some a) (htgt : a.stage = .targeted)
    {target : String} (htarg : a.target = some target) (update : RefUpdate) :
    Linked (s.updateRef a target update) := by
  have hnot : ∀ durability, a.stage ≠ .failed durability := by
    intro durability
    rw [htgt]
    exact Stage.noConfusion
  have hgit := h.not_uncertain ha hnot
  have hstore := h.not_stopped ha (by rw [htgt]; exact Stage.noConfusion) hnot
  have hbusy := h.busy hstore a ha
  obtain ⟨operation, hmem, hid, htype, hmat⟩ := hbusy.row
  have hmat' := hmat
  unfold Matches at hmat'
  simp only [htgt] at hmat'
  -- The row names its target, so the ref may move.
  have hnamed : ¬ ∃ operation ∈ s.db.operations, operation.operationId = a.operationId ∧
      Shape operation a.ref none := by
    rintro ⟨other, hother, hid', hnone⟩
    obtain rfl := h.rows.eq_of_id hother hmem (hid'.trans hid.symm)
    have huniq := (hmat'.2.1.unique hnone).2
    rw [htarg] at huniq
    cases huniq
  have hfail : ∀ s' : State, s'.db = s.db → s'.startup = s.startup → ∀ durability,
      Linked (s'.atStage a (.failed durability)) := by
    intro s' hdb hstrt durability
    refine linked_of_activity (a := { a with stage := .failed durability })
      (hstrt.trans (h.not_starting ha)) ?_ rfl (fun _ => ⟨durability, rfl⟩)
      (fun _ => .inr ⟨durability, rfl⟩) (fun _ => ?_) fun _ hnone => ?_
    · exact hdb ▸ h.rows
    · exact hdb ▸ hbusy.fail durability
    · exact absurd (hdb ▸ hnone) hnamed
  unfold State.updateRef
  rw [if_neg (by rw [hgit]; exact Bool.false_ne_true)]
  split
  · exact h.failing ha false
  cases update with
  | synced =>
    refine linked_of_activity (a := { a with stage := .moved }) (h.not_starting ha) h.rows rfl
      (fun hgit' => ?_) (fun hstore' => ?_) (fun _ => ?_) fun _ hnone => ?_
    · rw [show s.gitUncertain = true from hgit'] at hgit
      cases hgit
    · rw [show s.storeUncertain = true from hstore'] at hstore
      cases hstore
    · exact ⟨⟨operation, hmem, hid, htype, hmat'⟩, hbusy.expected⟩
    · exact absurd hnone hnamed
  | unsynced =>
    exact hfail { s.move a target with gitUncertain := true } rfl rfl true
  | refused => exact h.failing ha false
  | misreported => exact hfail (s.move a target) rfl rfl false

lemma Linked.mutateIdle (h : Linked s) (hrows : Rows (f s.db)) (outcome : Outcome) :
    Linked (s.mutate outcome f).1.leave := by
  rcases mutate_cases s outcome f with ⟨heq, -⟩ | heq | ⟨db, hdb, -, heq⟩ <;> rw [heq]
  · exact h.idle hrows rfl id rfl
  · exact h.leave
  refine h.idle ?_ rfl id rfl
  rcases hdb with rfl | rfl
  · exact hrows
  · exact h.rows

lemma Rows.blockVault (h : Rows db) : Rows db.blockVault :=
  h.grow ⟨fun _ h => h, fun _ h => h⟩ rfl

/-- The vault may be blocked while an operation is under way. -/
lemma Linked.blockVault (h : Linked s) : Linked (s.mutate .persisted Db.blockVault).1 := by
  unfold mutate
  split
  · exact h
  refine { h with rows := h.rows.blockVault, busy := fun hstore a ha => ?_ }
  exact { h.busy hstore a ha with }

/-- A handler that finds its ref moved goes on to the commit. -/
lemma Linked.reread (h : Linked s) (ha : s.activity = some a) (hgit : s.gitUncertain = false)
    (hfail : a.stage = .failed durability) (hpush : a.type ≠ .devicePush)
    (hmerge : a.isBuilder → a.type = .serverMerge)
    (answered : Bool) (outcome : Outcome) : Linked (s.reread a answered outcome) := by
  have habort := h.mutateIdle (f := fun db => db.abortOperation a.operationId)
    (h.rows.abortOperation a.operationId) outcome
  unfold State.reread
  dsimp only
  generalize hread : (if answered = true then s.refs a.ref else none) = actual
  split
  · rename_i hmoved
    simp only [Bool.and_eq_true, decide_eq_true_eq] at hmoved
    obtain ⟨hsome, rfl⟩ := hmoved
    have hact : s.refs a.ref = a.target := by
      cases answered with
      | true => exact hread
      | false =>
        rw [← hread] at hsome
        cases hsome
    refine linked_of_activity (a := { a with stage := .moved }) (h.not_starting ha) h.rows rfl
      (fun hgit' => ?_) (fun _ => .inl rfl) (fun hstore => ?_) (h.unmoved a ha)
    · rw [show s.gitUncertain = true from hgit'] at hgit
      cases hgit
    have hbusy := h.busy hstore a ha
    obtain ⟨operation, hmem, hid, htype, hmat⟩ := hbusy.row
    unfold Matches at hmat
    simp only [hfail] at hmat
    obtain ⟨hshape, hexp, hprep⟩ := hmat
    refine ⟨⟨operation, hmem, hid, htype, hprep hpush, ?_, hexp (hprep hpush), hsome⟩, hbusy.expected⟩
    rcases hshape with hshape | ⟨hnone, hbld, hne⟩
    · exact hshape
    obtain ⟨href, hcur⟩ :=
      h.unmoved a ha (hmerge hbld) ⟨operation, hmem, hid, hnone⟩
    rw [href] at hact
    exact absurd (hact.symm.trans hcur) hne
  · split
    · exact habort
    · exact h.mutateIdle h.rows.blockVault outcome

lemma Linked.handle (h : Linked s) (ha : s.activity = some a)
    (hfail : a.stage = .failed durability) (answered : Bool) (outcome : Outcome) :
    Linked (s.handle a durability answered outcome) := by
  have habort := h.mutateIdle (f := fun db => db.abortOperation a.operationId)
    (h.rows.abortOperation a.operationId) outcome
  unfold State.handle
  split
  · exact habort
  · exact habort
  · exact habort
  · rename_i hmerge
    split
    · exact h.leave
    rename_i hcert
    simp only [Bool.or_eq_true, not_or, Bool.not_eq_true] at hcert
    exact h.reread ha hcert.2 hfail (by rw [hmerge]; exact OperationType.noConfusion)
      (fun _ => hmerge) answered outcome
  · rename_i hpush hrsv hrest hmerge
    split
    · exact h.leave
    rename_i hcert
    refine h.reread ha (by simpa using hcert) hfail hpush (fun hbld => ?_) answered outcome
    simp only [Activity.isBuilder, Bool.or_eq_true, decide_eq_true_eq] at hbld
    rcases hbld with (h | h) | h
    · exact h
    · exact absurd h hrsv
    · exact absurd h hrest

lemma reconcile_rows (h : Rows db) (hmem : operation ∈ db.operations) (refs : Ref → Option String) :
    Rows (reconcileOperation refs operation db) := by
  rcases reconcile_cases h hmem refs (h.shape operation hmem) with
    heq | ⟨heq, -⟩ | ⟨heq, -, -⟩ | ⟨_, _, -, -, -, hadv⟩
  · rw [heq]
    exact h
  · rw [heq]
    exact h.abortOperation operation.operationId
  · rw [heq]
    exact h.blockVault
  · exact hadv.rows

lemma withActivity_eq_some {f : Activity → Option State} (h : s.withActivity f = some s') :
    ∃ a, s.activity = some a ∧ f a = some s' :=
  bind_eq_some_iff.mp h

/-- An operation is committed with the target it names. -/
lemma Linked.advanced (h : Linked s) (ha : s.activity = some a) (hmoved : a.stage = .moved)
    (hstore : s.storeUncertain = false) (hcmt : commitOperation a s.db = some db) :
    ∃ target, a.target = some target ∧ Advanced s.db db a.operationId a.ref target := by
  obtain ⟨operation, hmem, hid, htype, hmat⟩ := (h.busy hstore a ha).row
  unfold Matches at hmat
  simp only [hmoved] at hmat
  obtain ⟨-, hshape, -, hsome⟩ := hmat
  obtain ⟨target, htgt⟩ := isSome_iff_exists.mp hsome
  rw [htgt] at hshape
  exact ⟨target, htgt, commitOperation_spec h.rows hmem hid htype hshape htgt hcmt⟩

lemma Linked.commit (h : Linked s) (ha : s.activity = some a) (hmoved : a.stage = .moved)
    (outcome : Outcome) : Linked (s.finish outcome a (commitOperation a)) := by
  refine h.finish ha (fun hstore db hcmt => ?_) outcome
  obtain ⟨target, -, hadv⟩ := h.advanced ha hmoved hstore hcmt
  exact hadv.rows

lemma Linked.prepareMain (h : Linked s) {targetMain : String} (hidle : s.isIdle operationId) {type : OperationType}
    (htype : type = .vaultSettings ∨ type = .nameRepair) (outcome : Outcome) :
    Linked (s.prepareMain type operationId targetMain outcome) := by
  have hne : type ≠ .serverMerge ∧ type ≠ .conflictResolve := by
    rcases htype with rfl | rfl <;> simp
  have hshape : Shape (Operation.mk operationId type none .prepared
      [(.main, some s.db.vault.currentMain)] [(.main, some targetMain)] (some targetMain) {
        previousMain := some s.db.vault.currentMain
        targetMain := some targetMain
        targetRefs := [(.main, some targetMain)] }) .main (some targetMain) := by
    refine ⟨rfl, .inr rfl, rfl, ?_⟩
    rcases htype with rfl | rfl <;> simp [expectedRef, valueAt]
  refine h.begin hidle hshape ?_ rfl rfl ?_ ?_ ?_ outcome
  · exact ⟨fun _ deviceId hdev => by (cases hdev), fun hrsv => absurd hrsv hne.2⟩
  · refine ⟨rfl, hshape, ?_, rfl⟩
    simp [expectedRef, valueAt]
  · exact fun _ => rfl
  · exact fun hmerge => absurd hmerge hne.1

/-- A builder's row, which names no target yet. -/
lemma Linked.beginBuilder (h : Linked s) (hidle : s.isIdle row.operationId)
    (htarg : row.targetRefs = [(.main, none)]) (hman : row.manifest.targetRefs = [])
    (hcmt : row.targetCommit = none) (hprep : row.status = .prepared)
    (hknown : Known s.db row) (hid : a.operationId = row.operationId) (htype : row.type = a.type)
    (hbld : a.isBuilder) (hstage : a.stage = .prepared) (href : a.ref = .main)
    (htgt : a.target = none) (hexp : expectedRef row .main = a.expected) (hsome : a.expected.isSome)
    (hunm : a.type = .serverMerge → s.refs .main = a.expected) (outcome : Outcome) :
    Linked (s.begin outcome row a) := by
  have hshape : Shape row .main none := by
    refine ⟨htarg, .inl hman, hcmt, ?_⟩
    simp only [Activity.isBuilder, Bool.or_eq_true, decide_eq_true_eq, ← htype] at hbld
    rcases hbld with (hcase | hcase) | hcase <;> simp only [hcase]
  refine h.begin hidle hshape hknown hid htype ?_ (fun _ => hsome) ?_ outcome
  · unfold Matches
    simp only [hstage]
    exact ⟨hprep, htgt, href ▸ hshape, href, hman, hbld, href ▸ hexp⟩
  · exact fun hmerge => ⟨href, hunm hmerge⟩

lemma Linked.step (h : Linked s) {label : Label} (hstep : s.step git label = some s') : Linked s' := by
  cases label with
  | addDevice deviceId =>
    obtain ⟨-, ⟨⟩⟩ := ite_none_right_eq_some.mp hstep
    have hgrows : Grows s.db { s.db with devices := s.db.devices ++ [(deviceId, none)] } := by
      refine ⟨fun id hmem => ?_, fun _ h => h⟩
      rw [map_append]
      exact mem_append_left _ hmem
    refine { h with rows := h.rows.grow hgrows rfl, busy := fun hstore a ha => ?_ }
    exact { h.busy hstore a ha with }
  | addConflict conflict =>
    obtain ⟨-, ⟨⟩⟩ := ite_none_right_eq_some.mp hstep
    have hgrows : Grows s.db { s.db with conflicts := s.db.conflicts ++ [conflict] } := by
      refine ⟨fun _ h => h, fun id hsome => ?_⟩
      simp only [Db.findConflict, find?_append, isSome_or] at hsome ⊢
      rw [hsome]
      rfl
    refine { h with rows := h.rows.grow hgrows rfl, busy := fun hstore a ha => ?_ }
    exact { h.busy hstore a ha with }
  | protectConflict conflictId kind succeeds =>
    obtain ⟨conflict, -, hstep⟩ := bind_eq_some_iff.mp hstep
    dsimp only at hstep
    split at hstep
    · cases hstep
      exact { h with }
    split at hstep
    · cases hstep
      exact h
    · cases hstep
      exact h.blockVault
  | startPush operationId deviceId target expected outcome =>
    obtain ⟨hguard, ⟨⟩⟩ := ite_none_right_eq_some.mp hstep
    have hshape : Shape (Operation.mk operationId .devicePush (some deviceId) .started
        [(.device deviceId, expected)] [(.device deviceId, some target)] (some target) {})
        (.device deviceId) (some target) := ⟨rfl, .inl rfl, rfl, rfl⟩
    refine h.begin hguard.1 hshape ?_ rfl rfl ?_ (fun hne => absurd rfl hne) (fun hmerge => by cases hmerge) outcome
    case refine_2 => exact ⟨rfl, rfl, hshape⟩
    refine ⟨fun _ id hid => ?_, fun hrsv => by cases hrsv⟩
    cases hid
    exact hguard.2
  | rejectPush outcome =>
    obtain ⟨a, ha, hstep⟩ := withActivity_eq_some hstep
    obtain ⟨-, ⟨⟩⟩ := ite_none_right_eq_some.mp hstep
    refine h.finish ha (fun _ db hdb => ?_) outcome
    cases hdb
    exact h.rows.abortOperation a.operationId
  | finishExisting outcome | acceptDivergent outcome =>
    obtain ⟨a, ha, hstep⟩ := withActivity_eq_some hstep
    obtain ⟨-, ⟨⟩⟩ := ite_none_right_eq_some.mp hstep
    refine h.finish ha (fun _ db hdb => ?_) outcome
    cases hdb
    exact h.rows.setStatus a.operationId .committed
  | preparePush relation outcome =>
    obtain ⟨a, ha, hstep⟩ := withActivity_eq_some hstep
    split at hstep
    · rename_i target htgt
      split at hstep
      · rename_i hguard
        cases hstep
        refine h.preparePush ha hguard.1 (by rw [htgt]; rfl) ?_ outcome
        split
        · exact .inl rfl
        · exact .inr rfl
      · cases hstep
    · cases hstep
  | prepareMerge operationId deviceId deviceCommit outcome =>
    simp only [State.step] at hstep
    split at hstep
    · rename_i main hmain
      split at hstep
      · rename_i hguard
        cases hstep
        refine h.beginBuilder hguard.1 rfl rfl rfl rfl ?_ rfl rfl rfl rfl rfl rfl rfl rfl (fun _ => hmain) outcome
        refine ⟨fun _ id hid => ?_, fun hrsv => by cases hrsv⟩
        cases hid
        exact hguard.2
      · cases hstep
    · cases hstep
  | prepareResolve operationId conflictId outcome =>
    obtain ⟨conflict, hconf, hstep⟩ := bind_eq_some_iff.mp hstep
    obtain ⟨hguard, ⟨⟩⟩ := ite_none_right_eq_some.mp hstep
    refine h.beginBuilder hguard.1 rfl rfl rfl rfl ?_ rfl rfl rfl rfl rfl rfl rfl rfl
      (fun hmerge => by cases hmerge) outcome
    refine ⟨fun _ id hid => ?_, fun _ => ⟨?_, rfl⟩⟩
    · cases hid
      exact hguard.2.2.2
    change (s.db.findConflict conflictId).isSome = true
    rw [hconf]
    rfl
  | prepareRestore operationId sourceCommit outcome =>
    obtain ⟨hguard, ⟨⟩⟩ := ite_none_right_eq_some.mp hstep
    exact h.beginBuilder hguard.1 rfl rfl rfl rfl
      ⟨fun _ id hid => by (cases hid), fun hrsv => by cases hrsv⟩ rfl rfl rfl rfl rfl rfl rfl
      rfl (fun hmerge => by cases hmerge) outcome
  | prepareSettings operationId targetMain outcome =>
    obtain ⟨hguard, ⟨⟩⟩ := ite_none_right_eq_some.mp hstep
    exact h.prepareMain hguard.1 (.inl rfl) outcome
  | prepareNameRepair operationId targetMain outcome =>
    obtain ⟨hguard, ⟨⟩⟩ := ite_none_right_eq_some.mp hstep
    exact h.prepareMain hguard.1 (.inr rfl) outcome
  | prepareRefresh operationId conflictId outcome =>
    obtain ⟨conflict, hconf, hstep⟩ := bind_eq_some_iff.mp hstep
    obtain ⟨hguard, hstep⟩ := ite_none_right_eq_some.mp hstep
    split at hstep
    · cases hstep
      have hmut := h.mutateIdle h.rows.blockVault outcome
      have hleave : (s.mutate outcome Db.blockVault).1.leave = (s.mutate outcome Db.blockVault).1 := by
        rcases mutate_cases s outcome Db.blockVault with ⟨heq, -⟩ | heq | ⟨db, -, -, heq⟩ <;>
          rw [heq, State.leave, ← (isIdle_iff.mp hguard.1).1]
      exact hleave ▸ hmut
    · split at hstep
      · cases hstep
        exact h
      cases hstep
      have hshape : Shape (Operation.mk operationId .conflictRefresh (some conflict.deviceId)
          .prepared [(.conflict conflictId .current, some conflict.expectedMain)]
          [(.conflict conflictId .current, some s.db.vault.currentMain)]
          (some s.db.vault.currentMain) {
            conflictId := some conflictId
            previousMain := some conflict.expectedMain
            refreshedMain := some s.db.vault.currentMain
            targetRefs := [(.conflict conflictId .current, some s.db.vault.currentMain)] })
          (.conflict conflictId .current) (some s.db.vault.currentMain) :=
        ⟨rfl, .inr rfl, rfl, rfl⟩
      refine h.begin hguard.1 hshape ?_ rfl rfl ?_ (fun _ => rfl) (fun hmerge => by cases hmerge) outcome
      · exact ⟨fun hne => absurd rfl hne, fun hrsv => by cases hrsv⟩
      · refine ⟨rfl, hshape, ?_, rfl⟩
        simp [expectedRef, valueAt]
  | recordTarget commit outcome =>
    obtain ⟨a, ha, hstep⟩ := withActivity_eq_some hstep
    obtain ⟨hguard, ⟨⟩⟩ := ite_none_right_eq_some.mp hstep
    exact h.recordTarget ha hguard.1 hguard.2 outcome
  | raise durability =>
    obtain ⟨a, ha, hstep⟩ := withActivity_eq_some hstep
    obtain ⟨-, ⟨⟩⟩ := ite_none_right_eq_some.mp hstep
    have hfail := h.failing ha durability
    refine { hfail with
      starting := fun hne => absurd (h.not_starting ha) hne
      halted := fun _ a' ha' => ?_ }
    cases ha'
    exact ⟨durability, rfl⟩
  | updateRef update =>
    obtain ⟨a, ha, hstep⟩ := withActivity_eq_some hstep
    split at hstep
    · rename_i target htgt
      split at hstep
      · rename_i hstage
        cases hstep
        exact h.updateRef ha hstage htgt update
      · cases hstep
    · cases hstep
  | commit outcome =>
    obtain ⟨a, ha, hstep⟩ := withActivity_eq_some hstep
    obtain ⟨hstage, ⟨⟩⟩ := ite_none_right_eq_some.mp hstep
    exact h.commit ha hstage outcome
  | handle answered outcome =>
    obtain ⟨a, ha, hstep⟩ := withActivity_eq_some hstep
    split at hstep
    · rename_i durability hstage
      cases hstep
      exact h.handle ha hstage answered outcome
    · cases hstep
  | restart lost =>
    cases hstep
    refine ⟨h.rows, fun _ => ⟨rfl, rfl⟩, fun hgit => ?_, fun hstore => ?_, fun _ a ha => ?_, fun a ha => ?_⟩
    · cases hgit
    · cases hstore
    · cases ha
    · cases ha
  | populateRootCommit =>
    obtain ⟨hguard, hstep⟩ := ite_none_right_eq_some.mp hstep
    obtain ⟨root, -, rfl⟩ := map_eq_some_iff.mp hstep
    exact h.idle (h.rows.grow ⟨fun _ h => h, fun _ h => h⟩ rfl) (isNone_iff_eq_none.mp hguard.1) id rfl
  | reconcile =>
    simp only [State.step] at hstep
    split at hstep
    · rename_i operationId startup hstrt
      cases hstep
      have hne : s.startup ≠ [] := by
        rw [hstrt]
        exact cons_ne_nil _ _
      refine h.idle ?_ (h.starting hne).1 (fun _ => hne) rfl
      split
      · rename_i operation hfind
        exact reconcile_rows h.rows (mem_of_find?_eq_some hfind) s.refs
      · exact h.rows
    · cases hstep

end Kept

lemma linked_start (main : String) (rootCommit : Option String) : Linked (.start main rootCommit) := by
  constructor
  case rows =>
    refine ⟨nodup_nil, fun _ hmem => ?_, fun _ hmem => ?_⟩
    · cases hmem
    · cases hmem
  case starting => exact fun hne => absurd rfl hne
  case halted => exact fun hgit => Bool.noConfusion hgit
  case stopped => exact fun hstore => Bool.noConfusion hstore
  case busy =>
    intro _ _ ha
    cases ha
  case unmoved =>
    intro _ ha
    cases ha

end RefMoves
