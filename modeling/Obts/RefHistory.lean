import Obts.RefRuns

/-!
# Published history only grows

Main and the device refs move to commits that were made on the ones they leave, whatever fails. The
metadata never records a main that the ref has not reached, unless a power failure undoes a move
that is recorded and that no sync has followed.
-/
namespace RefMoves

open Metadata Option List

lemma Ancestor.refl (parents : String → List String) (commit : String) : Ancestor parents commit commit :=
  Relation.ReflTransGen.refl

variable {parents : String → List String}

lemma Ancestor.trans {a b c : String}
    (hab : Ancestor parents a b) (hbc : Ancestor parents b c) : Ancestor parents a c :=
  Relation.ReflTransGen.trans hbc hab

lemma Ancestor.of_parent {parent commit : String} (h : parent ∈ parents commit) : Ancestor parents parent commit :=
  Relation.ReflTransGen.single h

/-- A tracked ref does not lose what it had, and main is never unset. -/
def RefMove.Forward (git : Git) (move : RefMove) : Prop :=
  move.ref.isTracked = true → (move.ref = .main → move.previous.isSome = true) ∧
      ∀ previous, move.previous = some previous → Ancestor git.parents previous move.target

/-- What the operation that holds the lock is about to do, or has done, to a tracked ref. -/
def Poised (git : Git) (refs : Ref → Option String) (activity : Option Activity) : Prop :=
  ∀ a, activity = some a → a.ref.isTracked = true →
    (a.stage = .targeted → ∀ previous target, a.expected = some previous → a.target = some target →
      Ancestor git.parents previous target) ∧
    (a.stage = .moved → refs a.ref = a.target)

/-- The commit goes on from something that the recorded main goes on from as well, and from the
recorded root. -/
structure Rooted (git : Git) (db : Db) (commit : String) : Prop where
  common : ∃ common, Ancestor git.parents common commit ∧ Ancestor git.parents common db.vault.currentMain
  root : ∀ root, db.vault.rootCommit = some root → Ancestor git.parents root commit

/-- Where main is, and where a power failure may take it back to. It is `intact` where none has
undone a move that is recorded. -/
structure Reached (git : Git) (intact : Prop) (s : State) (main : String) : Prop where
  ref : s.refs .main = some main
  rooted : Rooted git s.db main
  recorded : intact → Ancestor git.parents s.db.vault.currentMain main
  unsynced : ∀ move ∈ s.unsynced, move.ref = .main → ∃ previous, move.previous = some previous ∧
    Ancestor git.parents previous main ∧ Rooted git s.db previous

structure History (git : Git) (intact : Prop) (s : State) : Prop where
  main : ∃ main, Reached git intact s main
  moves : ∀ move ∈ s.moves, move.Forward git
  poised : Poised git s.refs s.activity

/-- A power failure undoes no move of main that the metadata records. -/
def State.keepsRecorded (s : State) : Label → Bool
  | .restart lost => s.unsynced.all fun move =>
    !lost move || move.ref ≠ .main || move.previous = some s.db.vault.currentMain
  | _ => true

def State.runKeepsRecorded (git : Git) (s : State) : List Label → Bool
  | [] => true
  | label :: labels => s.keepsRecorded label && (s.step git label).all fun s =>
    s.runKeepsRecorded git labels

/-- The part of the vault's row that history is about. -/
structure SameVault (db db' : Db) : Prop where
  currentMain : db'.vault.currentMain = db.vault.currentMain
  rootCommit : db'.vault.rootCommit = db.vault.rootCommit

lemma SameVault.refl (db : Db) : SameVault db db := ⟨rfl, rfl⟩

section Kept
variable {git : Git} {intact : Prop} {s s' : State} {a : Activity} {db : Db}
  {main target operationId : String} {refs : Ref → Option String} {ref : Ref}

lemma poised_none (git : Git) (refs : Ref → Option String) : Poised git refs none := by
  intro a ha
  cases ha

lemma poised_of_stage (htgt : a.stage ≠ .targeted) (hmoved : a.stage ≠ .moved) : Poised git refs (some a) := by
  intro a' ha'
  cases ha'
  exact fun _ => ⟨fun h => absurd h htgt, fun h => absurd h hmoved⟩

lemma poised_failed (durability : Bool) : Poised git refs (some { a with stage := .failed durability }) :=
  poised_of_stage Stage.noConfusion Stage.noConfusion

lemma poised_escaped (git : Git) (refs : Ref → Option String) (a : Activity) : Poised git refs (escaped a) := by
  unfold escaped
  split
  · exact poised_failed false
  · exact poised_none git refs

lemma Rooted.onto {commit next : String} (h : Rooted git db commit)
    (hanc : Ancestor git.parents commit next) : Rooted git db next := by
  obtain ⟨common, hcommon, hcur⟩ := h.common
  exact ⟨⟨common, hcommon.trans hanc, hcur⟩, fun root hroot => (h.root root hroot).trans hanc⟩

/-- Main stays where it is, and the metadata keeps what it records or records that. -/
lemma Reached.record (h : Reached git intact s main) (hroot : s'.db.vault.rootCommit = s.db.vault.rootCommit)
    (hcur : s'.db.vault.currentMain = s.db.vault.currentMain ∨ s'.db.vault.currentMain = main)
    (href : s'.refs .main = s.refs .main) (huns : s'.unsynced = s.unsynced) : Reached git intact s' main := by
  have hrooted : ∀ commit, Ancestor git.parents commit main → Rooted git s.db commit →
      Rooted git s'.db commit := by
    intro commit hanc hrooted
    refine ⟨?_, hroot ▸ hrooted.root⟩
    rcases hcur with hcur | hcur <;> rw [hcur]
    · exact hrooted.common
    · exact ⟨commit, .refl git.parents commit, hanc⟩
  refine ⟨href.trans h.ref, hrooted main (.refl git.parents main) h.rooted, fun hint => ?_,
    fun move hmove hmain => ?_⟩
  · rcases hcur with hcur | hcur <;> rw [hcur]
    · exact h.recorded hint
    · exact .refl git.parents main
  · rw [huns] at hmove
    obtain ⟨previous, hprev, hanc, hcommit⟩ := h.unsynced move hmove hmain
    exact ⟨previous, hprev, hanc, hrooted previous hanc hcommit⟩

section
variable (h : History git intact s) {f : Db → Db}
include h

/-- Nothing that history is about changes, but the operation that holds the lock. -/
lemma History.keep (hvault : SameVault s.db s'.db)
    (hrefs : ∀ ref, ref.isTracked → s'.refs ref = s.refs ref) (hmoves : s'.moves = s.moves)
    (huns : s'.unsynced = s.unsynced) (hpoi : Poised git s.refs s'.activity) : History git intact s' := by
  obtain ⟨main, hmain⟩ := h.main
  refine ⟨⟨main, hmain.record hvault.rootCommit (.inl hvault.currentMain) (hrefs .main rfl) huns⟩,
    ?_, fun a ha htrk => ?_⟩
  · rw [hmoves]
    exact h.moves
  · obtain ⟨htgt, hmoved⟩ := hpoi a ha htrk
    rw [hrefs a.ref htrk]
    exact ⟨htgt, hmoved⟩

/-- A sync of the repository. -/
lemma History.synced : History git intact { s with unsynced := [] } := by
  obtain ⟨main, hmain⟩ := h.main
  exact { h with main := ⟨main, { hmain with unsynced := fun move hmove => by cases hmove }⟩ }

lemma History.failing (a : Activity) (durability : Bool) : History git intact (s.atStage a (.failed durability)) :=
  h.keep (.refl s.db) (fun _ _ => rfl) rfl rfl (poised_failed durability)

lemma History.leave : History git intact s.leave :=
  h.keep (.refl s.db) (fun _ _ => rfl) rfl rfl (poised_none git s.refs)

lemma History.mutate (hf : SameVault s.db (f s.db))
    (outcome : Outcome) : History git intact (s.mutate outcome f).1 := by
  rcases mutate_cases s outcome f with ⟨heq, -⟩ | heq | ⟨db, hdb, -, heq⟩ <;> rw [heq]
  · exact h.keep hf (fun _ _ => rfl) rfl rfl h.poised
  · exact h
  refine h.keep ?_ (fun _ _ => rfl) rfl rfl h.poised
  rcases hdb with rfl | rfl
  · exact hf
  · exact .refl s.db

lemma History.begin (row : Operation) (hpoi : Poised git s.refs (some a))
    (outcome : Outcome) : History git intact (s.begin outcome row a) := by
  rcases begin_cases s outcome row a with ⟨heq, -⟩ | heq | ⟨db, hdb, heq⟩ <;> rw [heq]
  · exact h.keep ⟨rfl, rfl⟩ (fun _ _ => rfl) rfl rfl hpoi
  · exact h
  refine h.keep ?_ (fun _ _ => rfl) rfl rfl h.poised
  rcases hdb with rfl | rfl
  · exact ⟨rfl, rfl⟩
  · exact .refl s.db

lemma History.advance {stage : Stage}
    (hf : SameVault s.db (f s.db)) (hpoi : Poised git s.refs (some { a with stage }))
    (outcome : Outcome) : History git intact (s.advance outcome a stage f) := by
  rcases advance_cases s outcome a stage f with ⟨heq, -⟩ | heq | ⟨db, hdb, heq⟩ <;> rw [heq]
  · exact h.keep hf (fun _ _ => rfl) rfl rfl hpoi
  · exact h.failing a false
  refine h.keep ?_ (fun _ _ => rfl) rfl rfl (poised_failed false)
  rcases hdb with rfl | rfl
  · exact hf
  · exact .refl s.db

lemma History.finish {f : Db → Option Db} (hf : ∀ db, f s.db = some db → SameVault s.db db) (outcome : Outcome) :
    History git intact (s.finish outcome a f) := by
  rcases finish_cases s outcome a f with ⟨db, hdb, heq, -⟩ | heq | ⟨db, hdb, -, heq⟩ <;> rw [heq]
  · exact h.keep (hf db hdb) (fun _ _ => rfl) rfl rfl (poised_none git s.refs)
  · exact h.keep (.refl s.db) (fun _ _ => rfl) rfl rfl (poised_escaped git s.refs a)
  refine h.keep ?_ (fun _ _ => rfl) rfl rfl (poised_escaped git s.refs a)
  rcases hdb with hdb | rfl
  · exact hf db hdb
  · exact .refl s.db

end

lemma Advanced.currentMain {db' : Db} (h : Advanced db db' operationId ref target) :
    db'.vault.currentMain = if ref = .main then target else db.vault.currentMain := by
  have hrec := h.recorded .main rfl
  simp only [Db.recorded, eq_comm (a := Ref.main)] at hrec
  split at hrec
  · rename_i href
    rw [if_pos href]
    exact some.inj hrec
  rename_i href
  rw [if_neg href]
  exact some.inj hrec

section
variable (h : History git intact s)
include h

/-- A commit records a main that the ref has reached. -/
lemma History.advanced (hadv : Advanced s.db db operationId ref target)
    (href : ref.isTracked → s.refs ref = some target) (hdb : s'.db = db) (hrefs : s'.refs = s.refs)
    (hmoves : s'.moves = s.moves) (huns : s'.unsynced = s.unsynced)
    (hpoi : Poised git s.refs s'.activity) : History git intact s' := by
  obtain ⟨main, hmain⟩ := h.main
  have hcur := hadv.currentMain
  refine ⟨⟨main, hmain.record ?_ ?_ ?_ huns⟩, ?_, ?_⟩
  · rw [hdb, hadv.rootCommit]
  · rw [hdb, hcur]
    split
    · rename_i hcase
      rw [hcase] at href
      exact .inr (some.inj ((href rfl).symm.trans hmain.ref))
    · exact .inl rfl
  · rw [hrefs]
  · rw [hmoves]
    exact h.moves
  · rw [hrefs]
    exact hpoi

lemma History.commit (hlnk : Linked s) (ha : s.activity = some a) (hmoved : a.stage = .moved) (outcome : Outcome) :
    History git intact (s.finish outcome a (commitOperation a)) := by
  have harr : ∀ target, a.target = some target → a.ref.isTracked = true →
      s.refs a.ref = some target := by
    intro target htgt htrk
    exact ((h.poised a ha htrk).2 hmoved).trans htgt
  rcases finish_cases s outcome a (commitOperation a) with
    ⟨db, hdb, heq, hstore⟩ | heq | ⟨db, hdb, hstore, heq⟩ <;> rw [heq]
  · obtain ⟨target, htgt, hadv⟩ := hlnk.advanced ha hmoved hstore hdb
    exact h.advanced hadv (harr target htgt) rfl rfl rfl rfl (poised_none git s.refs)
  · exact h.keep (.refl s.db) (fun _ _ => rfl) rfl rfl (poised_escaped git s.refs a)
  · rcases hdb with hdb | rfl
    · obtain ⟨target, htgt, hadv⟩ := hlnk.advanced ha hmoved hstore hdb
      exact h.advanced hadv (harr target htgt) rfl rfl rfl rfl (poised_escaped git s.refs a)
    · exact h.keep (.refl s.db) (fun _ _ => rfl) rfl rfl (poised_escaped git s.refs a)

/-- A ref that still has its expected value is moved forward. -/
lemma History.move (ha : s.activity = some a) (htgt : a.stage = .targeted)
    (htarg : a.target = some target) (hexp : s.refs a.ref = a.expected)
    (hdb : s'.db = s.db) (hrefs : s'.refs = (s.move a target).refs)
    (hmoves : s'.moves = (s.move a target).moves) (huns : s'.unsynced = (s.move a target).unsynced)
    (hpoi : Poised git s'.refs s'.activity) : History git intact s' := by
  obtain ⟨main, hmain⟩ := h.main
  have hforw : RefMove.Forward git ⟨a.operationId, a.ref, s.refs a.ref, target⟩ := by
    intro htrk
    refine ⟨fun href => ?_, fun previous hprev => ?_⟩
    · change a.ref = .main at href
      rw [href, hmain.ref]
      rfl
    · exact (h.poised a ha htrk).1 htgt previous target (hexp.symm.trans hprev)
        htarg
  refine ⟨?_, fun move hmem => ?_, hpoi⟩
  · have hnew : s'.refs .main = if a.ref = .main then some target else s.refs .main := by
      rw [hrefs]
      change Function.update s.refs a.ref (some target) .main = _
      rw [Function.update_apply]
      simp [eq_comm]
    have hold : ∀ move ∈ s'.unsynced, move ∈ s.unsynced ∨
        move = ⟨a.operationId, a.ref, s.refs a.ref, target⟩ := by
      intro move hmove
      rw [huns] at hmove
      exact (mem_append.mp hmove).imp_right mem_singleton.mp
    by_cases href : a.ref = .main
    · rw [if_pos href] at hnew
      have hnext : Ancestor git.parents main target := by
        refine (hforw (by rw [href]; rfl)).2 main ?_
        rw [href]
        exact hmain.ref
      refine ⟨target, hnew, ?_, fun hint => ?_, fun move hmove hm => ?_⟩
      · exact hdb ▸ hmain.rooted.onto hnext
      · exact hdb ▸ (hmain.recorded hint).trans hnext
      rw [hdb]
      rcases hold move hmove with hmove | rfl
      · obtain ⟨previous, hprev, hanc, hrooted⟩ := hmain.unsynced move hmove hm
        exact ⟨previous, hprev, hanc.trans hnext, hrooted⟩
      · rw [href]
        exact ⟨main, hmain.ref, hnext, hmain.rooted⟩
    · rw [if_neg href] at hnew
      refine ⟨main, hnew.trans hmain.ref, ?_, ?_, fun move hmove hm => ?_⟩
      · exact hdb ▸ hmain.rooted
      · exact hdb ▸ hmain.recorded
      rw [hdb]
      rcases hold move hmove with hmove | rfl
      · exact hmain.unsynced move hmove hm
      · exact absurd hm href
  · rw [hmoves] at hmem
    rcases mem_append.mp hmem with hold | hnew
    · exact h.moves move hold
    · obtain rfl := mem_singleton.mp hnew
      exact hforw

lemma History.updateRef (ha : s.activity = some a) (htgt : a.stage = .targeted)
    (htarg : a.target = some target) (update : RefUpdate) : History git intact (s.updateRef a target update) := by
  unfold State.updateRef
  split
  · exact h.failing a true
  split
  · exact h.failing a false
  rename_i hexp
  rw [not_not] at hexp
  cases update with
  | synced =>
    have hmove : History git intact ((s.move a target).atStage a .moved) := by
      refine h.move ha htgt htarg hexp rfl rfl rfl rfl fun a' ha' _ => ?_
      cases ha'
      refine ⟨fun hstage => Stage.noConfusion hstage, fun _ => ?_⟩
      change Function.update s.refs a.ref (some target) a.ref = a.target
      rw [Function.update_self, htarg]
    exact hmove.synced
  | unsynced => exact h.move ha htgt htarg hexp rfl rfl rfl rfl (poised_failed true)
  | refused => exact h.failing a false
  | misreported => exact h.move ha htgt htarg hexp rfl rfl rfl rfl (poised_failed false)

lemma History.handle (a : Activity) (durability answered : Bool)
    (outcome : Outcome) : History git intact (s.handle a durability answered outcome) := by
  have habort := (h.mutate (f := fun db => db.abortOperation a.operationId) ⟨rfl, rfl⟩ outcome).leave
  have hrer : History git intact (s.reread a answered outcome) := by
    unfold State.reread
    dsimp only
    generalize hread : (if answered = true then s.refs a.ref else none) = actual
    split
    · rename_i hmoved
      simp only [Bool.and_eq_true, decide_eq_true_eq] at hmoved
      obtain ⟨hsome, rfl⟩ := hmoved
      refine h.keep (.refl s.db) (fun _ _ => rfl) rfl rfl fun a' ha' _ => ?_
      cases ha'
      refine ⟨fun hstage => Stage.noConfusion hstage, fun _ => ?_⟩
      cases answered with
      | true => exact hread
      | false =>
        rw [← hread] at hsome
        cases hsome
    · split
      · exact habort
      · exact (h.mutate (f := Db.blockVault) ⟨rfl, rfl⟩ outcome).leave
  unfold State.handle
  split
  · exact habort
  · exact habort
  · exact habort
  · split
    · exact h.leave
    · exact hrer
  · split
    · exact h.leave
    · exact hrer

end

/-- A push that goes on to its ref fast-forwards it. -/
lemma admits_forward {current : Option String} {previous : String}
    {relation : DeviceRelation} (h : State.admits git current target relation)
    (hprev : current = some previous) (hrel : relation ≠ .divergent) : Ancestor git.parents previous target := by
  subst hprev
  cases relation with
  | initial | superseded => cases h
  | fastForward => exact git.isAncestor_sound h
  | divergent => exact absurd rfl hrel

section
variable (h : History git intact s)
include h

lemma History.prepareMain (type : OperationType) (operationId : String)
    {targetMain : String} (hpars : git.parents targetMain = [s.db.vault.currentMain])
    (outcome : Outcome) : History git intact (s.prepareMain type operationId targetMain outcome) := by
  refine h.begin _ (fun a ha _ => ?_) outcome
  cases ha
  refine ⟨fun _ previous target hprev htgt => ?_, fun hstage => Stage.noConfusion hstage⟩
  cases hprev
  cases htgt
  refine .of_parent ?_
  rw [hpars]
  exact mem_singleton_self _

lemma History.reconcile (hlnk : Linked s) {operation : Operation}
    (hmem : operation ∈ s.db.operations) (hact : s.activity = none) (startup : List String) :
    History git intact { s with db := reconcileOperation s.refs operation s.db, startup } := by
  have hpoi : Poised git s.refs s.activity := by
    rw [hact]
    exact poised_none git s.refs
  rcases reconcile_cases hlnk.rows hmem s.refs (hlnk.rows.shape operation hmem) with
    heq | ⟨heq, -⟩ | ⟨heq, -, -⟩ | ⟨ref, target, -, -, href, hadv⟩
  · rw [heq]
    exact h.keep (.refl s.db) (fun _ _ => rfl) rfl rfl hpoi
  · rw [heq]
    exact h.keep ⟨rfl, rfl⟩ (fun _ _ => rfl) rfl rfl hpoi
  · rw [heq]
    exact h.keep ⟨rfl, rfl⟩ (fun _ _ => rfl) rfl rfl hpoi
  · exact h.advanced hadv (fun _ => href) rfl rfl rfl rfl hpoi

/-- A power failure takes main back to where it was before one of the moves that it undoes. -/
lemma History.restart {lost : RefMove → Bool} (hkept : intact → s.keepsRecorded (.restart lost))
    (hstep : s.step git (.restart lost) = some s') : History git intact s' := by
  obtain ⟨main, hmain⟩ := h.main
  cases hstep
  refine ⟨?_, h.moves, poised_none git _⟩
  cases hfind : s.unsynced.find? (fun move => move.ref = .main && lost move) with
  | none =>
    refine ⟨main, ?_, hmain.rooted, hmain.recorded, fun move hmove => ?_⟩
    · simp only [hfind]
      exact hmain.ref
    · split at hmove
      · cases hmove
      · exact hmain.unsynced move hmove
  | some undone =>
    have hmem := mem_of_find?_eq_some hfind
    have hund := find?_some hfind
    rw [Bool.and_eq_true, decide_eq_true_eq] at hund
    obtain ⟨previous, hprev, -, hrooted⟩ := hmain.unsynced undone hmem hund.1
    refine ⟨previous, ?_, hrooted, fun hint => ?_, fun move hmove => ?_⟩
    · simp only [hfind]
      exact hprev
    · have hrec := all_eq_true.mp (hkept hint) undone hmem
      simp only [hund.1, hund.2, hprev, ne_eq, not_true_eq_false, decide_false, Bool.not_true,
        Bool.false_or, decide_eq_true_eq, some.injEq] at hrec
      rw [hrec]
      exact .refl git.parents _
    · rw [if_pos (any_eq_true.mpr ⟨undone, hmem, hund.2⟩)] at hmove
      cases hmove

lemma History.step (hlnk : Linked s) {label : Label} (hkept : intact → s.keepsRecorded label)
    (hstep : s.step git label = some s') : History git intact s' := by
  cases label with
  | addDevice | addConflict =>
    obtain ⟨-, ⟨⟩⟩ := ite_none_right_eq_some.mp hstep
    exact h.keep ⟨rfl, rfl⟩ (fun _ _ => rfl) rfl rfl h.poised
  | protectConflict conflictId kind succeeds =>
    obtain ⟨conflict, -, hstep⟩ := bind_eq_some_iff.mp hstep
    dsimp only at hstep
    split at hstep
    · cases hstep
      have hrefs : History git intact { s with
          refs := Function.update s.refs (.conflict conflictId kind)
            (some (conflict.protectedCommit kind)) } :=
        h.keep (.refl s.db) (fun ref htrk => Function.update_of_ne (by rintro rfl; cases htrk) _ _)
          rfl rfl h.poised
      exact hrefs.synced
    split at hstep
    · cases hstep
      exact h
    · cases hstep
      exact h.mutate ⟨rfl, rfl⟩ .persisted
  | startPush _ _ _ _ outcome | prepareRestore _ _ outcome =>
    obtain ⟨-, ⟨⟩⟩ := ite_none_right_eq_some.mp hstep
    exact h.begin _ (poised_of_stage Stage.noConfusion Stage.noConfusion) outcome
  | rejectPush outcome | finishExisting outcome | acceptDivergent outcome =>
    obtain ⟨a, ha, hstep⟩ := withActivity_eq_some hstep
    obtain ⟨-, ⟨⟩⟩ := ite_none_right_eq_some.mp hstep
    refine h.finish (fun db hdb => ?_) outcome
    cases hdb
    exact ⟨rfl, rfl⟩
  | preparePush relation outcome =>
    obtain ⟨a, ha, hstep⟩ := withActivity_eq_some hstep
    split at hstep
    · rename_i target htgt
      split at hstep
      · rename_i hguard
        cases hstep
        refine h.advance ⟨rfl, rfl⟩ (fun a' ha' _ => ?_) outcome
        cases ha'
        refine ⟨fun hstage previous target' hprev htgt' => ?_, fun hstage => ?_⟩
        · cases htgt.symm.trans htgt'
          exact admits_forward hguard.2 hprev (by rintro rfl; cases hstage)
        split at hstage
        · cases hstage
        · cases hstage
      · cases hstep
    · cases hstep
  | prepareMerge operationId deviceId deviceCommit outcome =>
    simp only [State.step] at hstep
    split at hstep
    · split at hstep
      · cases hstep
        exact h.begin _ (poised_of_stage Stage.noConfusion Stage.noConfusion) outcome
      · cases hstep
    · cases hstep
  | prepareResolve operationId conflictId outcome =>
    obtain ⟨conflict, -, hstep⟩ := bind_eq_some_iff.mp hstep
    obtain ⟨-, ⟨⟩⟩ := ite_none_right_eq_some.mp hstep
    exact h.begin _ (poised_of_stage Stage.noConfusion Stage.noConfusion) outcome
  | prepareSettings operationId targetMain outcome =>
    obtain ⟨hguard, ⟨⟩⟩ := ite_none_right_eq_some.mp hstep
    exact h.prepareMain .vaultSettings operationId hguard.2 outcome
  | prepareNameRepair operationId targetMain outcome =>
    obtain ⟨hguard, ⟨⟩⟩ := ite_none_right_eq_some.mp hstep
    exact h.prepareMain .nameRepair operationId hguard.2.2 outcome
  | prepareRefresh operationId conflictId outcome =>
    obtain ⟨conflict, -, hstep⟩ := bind_eq_some_iff.mp hstep
    obtain ⟨-, hstep⟩ := ite_none_right_eq_some.mp hstep
    split at hstep
    · cases hstep
      exact h.mutate ⟨rfl, rfl⟩ outcome
    split at hstep
    · cases hstep
      exact h
    cases hstep
    refine h.begin _ (fun a ha htrk => ?_) outcome
    cases ha
    cases htrk
  | recordTarget commit outcome =>
    obtain ⟨a, ha, hstep⟩ := withActivity_eq_some hstep
    obtain ⟨hguard, ⟨⟩⟩ := ite_none_right_eq_some.mp hstep
    refine h.advance ⟨rfl, rfl⟩ (fun a' ha' _ => ?_) outcome
    cases ha'
    refine ⟨fun _ previous target hprev htgt => ?_, fun hstage => Stage.noConfusion hstage⟩
    cases htgt
    exact .of_parent (builds_parent hguard.2 hprev)
  | raise durability =>
    obtain ⟨a, ha, hstep⟩ := withActivity_eq_some hstep
    obtain ⟨-, ⟨⟩⟩ := ite_none_right_eq_some.mp hstep
    exact h.keep (.refl s.db) (fun _ _ => rfl) rfl rfl (poised_failed durability)
  | updateRef update =>
    obtain ⟨a, ha, hstep⟩ := withActivity_eq_some hstep
    split at hstep
    · rename_i target htgt
      split at hstep
      · rename_i hstage
        cases hstep
        exact h.updateRef ha hstage htgt update
      · cases hstep
    · cases hstep
  | commit outcome =>
    obtain ⟨a, ha, hstep⟩ := withActivity_eq_some hstep
    obtain ⟨hstage, ⟨⟩⟩ := ite_none_right_eq_some.mp hstep
    exact h.commit hlnk ha hstage outcome
  | handle answered outcome =>
    obtain ⟨a, ha, hstep⟩ := withActivity_eq_some hstep
    split at hstep
    · rename_i durability hstage
      cases hstep
      exact h.handle a durability answered outcome
    · cases hstep
  | restart lost => exact h.restart hkept hstep
  | populateRootCommit =>
    obtain ⟨-, hstep⟩ := ite_none_right_eq_some.mp hstep
    obtain ⟨root, hroot, rfl⟩ := map_eq_some_iff.mp hstep
    obtain ⟨main, hmain⟩ := h.main
    have hrooted : ∀ commit, Rooted git s.db commit → Rooted git { s.db with
        vault := { s.db.vault with rootCommit := some root } } commit := by
      intro commit hcommit
      obtain ⟨common, hcommon, hcur⟩ := hcommit.common
      refine ⟨⟨common, hcommon, hcur⟩, fun root' hroot' => ?_⟩
      cases hroot'
      exact (git.rootCommit_sound hroot hcur).trans hcommon
    refine { h with main := ⟨main, { hmain with
      rooted := hrooted main hmain.rooted
      unsynced := fun move hmove href => ?_ }⟩ }
    obtain ⟨previous, hprev, hanc, hcommit⟩ := hmain.unsynced move hmove href
    exact ⟨previous, hprev, hanc, hrooted previous hcommit⟩
  | reconcile =>
    simp only [State.step] at hstep
    split at hstep
    · rename_i operationId startup hstrt
      cases hstep
      have hne : s.startup ≠ [] := by
        rw [hstrt]
        exact cons_ne_nil _ _
      obtain ⟨hact, -⟩ := hlnk.starting hne
      cases hfind : s.db.operations.find? (fun operation => operation.operationId = operationId) with
      | none => exact h.keep (.refl s.db) (fun _ _ => rfl) rfl rfl h.poised
      | some operation =>
        exact h.reconcile hlnk (mem_of_find?_eq_some hfind) hact startup
    · cases hstep

lemma History.run {labels : List Label} (hlnk : Linked s)
    (hkept : intact → s.runKeepsRecorded git labels) (hrun : s.run git labels = some s') :
    History git intact s' := by
  induction labels generalizing s with
  | nil =>
    cases hrun
    exact h
  | cons label labels ih =>
    obtain ⟨next, hstep, hrun⟩ := bind_eq_some_iff.mp hrun
    have hboth : intact → s.keepsRecorded label ∧ next.runKeepsRecorded git labels := by
      intro hint
      have hkept := hkept hint
      rw [State.runKeepsRecorded, hstep, Bool.and_eq_true] at hkept
      exact hkept
    exact ih (h.step hlnk (fun hint => (hboth hint).1) hstep) (hlnk.step hstep) (fun hint => (hboth hint).2) hrun

end

end Kept

lemma history_start (git : Git) (intact : Prop) {main : String} {rootCommit : Option String}
    (hroot : ∀ root, rootCommit = some root → Ancestor git.parents root main) :
    History git intact (.start main rootCommit) := by
  have hrefl := Ancestor.refl git.parents main
  refine ⟨⟨main, rfl, ⟨⟨main, hrefl, hrefl⟩, hroot⟩, fun _ => hrefl, fun move hmove => ?_⟩,
    fun move hmem => ?_, poised_none git _⟩
  · cases hmove
  · cases hmem

/-- Over every run of a vault, with any step failing, main and the device refs only move to commits
that were made on the ones they leave, and the vault's root stays an ancestor of main. -/
theorem published_history_append_only (git : Git) {main : String} {rootCommit : Option String}
    (hroot : ∀ root, rootCommit = some root → Ancestor git.parents root main)
    {labels : List Label} {s : State} (hrun : (State.start main rootCommit).run git labels = some s) :
    (∀ move ∈ s.moves, move.ref = .main → ∃ previous, move.previous = some previous ∧
      Ancestor git.parents previous move.target) ∧ (∀ move ∈ s.moves, ∀ deviceId, move.ref = .device deviceId →
      ∀ previous, move.previous = some previous → Ancestor git.parents previous move.target) ∧
    ∃ main, s.refs .main = some main ∧
      ∀ root, s.db.vault.rootCommit = some root → Ancestor git.parents root main := by
  have h := (history_start git False hroot).run (linked_start main rootCommit) False.elim hrun
  refine ⟨fun move hmem href => ?_, fun move hmem deviceId href => ?_, ?_⟩
  · obtain ⟨hsome, hforw⟩ := h.moves move hmem (by rw [href]; rfl)
    obtain ⟨previous, hprev⟩ := isSome_iff_exists.mp (hsome href)
    exact ⟨previous, hprev, hforw previous hprev⟩
  · exact (h.moves move hmem (by rw [href]; rfl)).2
  · obtain ⟨main', hmain⟩ := h.main
    exact ⟨main', hmain.ref, hmain.rooted.root⟩

/-- A repository with a commit `device` on top of `initial`. -/
def sampleGit : Git where
  parents commit := if commit = "device" then ["initial"] else []
  isAncestor ancestor descendant := ancestor = descendant
  rootCommit commit := if commit = "device" then some "initial" else some commit
  parent_ne := by
    intro commit parent hparent
    split at hparent
    · rename_i hcommit
      rw [hcommit, List.mem_singleton.mp hparent]
      decide
    · cases hparent
  isAncestor_sound := by
    intro ancestor descendant h
    rw [of_decide_eq_true h]
    exact .refl _ descendant
  rootCommit_sound := by
    intro commit root h ancestor hanc
    rcases Relation.ReflTransGen.cases_head hanc with rfl | ⟨parent, hparent, hanc⟩
    · split at h
      · rename_i hcommit
        cases h
        refine .of_parent ?_
        rw [if_pos hcommit]
        exact List.mem_singleton_self _
      · cases h
        exact .refl _ commit
    · change parent ∈ if commit = "device" then ["initial"] else [] at hparent
      split at hparent
      · rename_i hcommit
        rw [if_pos hcommit] at h
        cases h
        obtain rfl := List.mem_singleton.mp hparent
        rcases Relation.ReflTransGen.cases_head hanc with rfl | ⟨parent, hparent, -⟩
        · exact .refl _ _
        · cases hparent
      · cases hparent

def sampleLabels : List Label :=
  [.populateRootCommit, .addDevice "laptop", .startPush "push" "laptop" "device" none .persisted,
    .preparePush .initial .persisted, .updateRef .synced, .commit .persisted,
    .prepareMerge "merge" "laptop" "device" .persisted, .recordTarget "device" .persisted,
    .updateRef .synced, .commit .persisted]

lemma sampleRun_isSome : ((State.start "initial" none).run sampleGit sampleLabels).isSome := by
  decide +kernel

theorem published_history_append_only_sample :
    ∃ main, (((State.start "initial" none).run sampleGit sampleLabels).get sampleRun_isSome).refs .main
        = some main ∧ ∀ root, (((State.start "initial" none).run sampleGit sampleLabels).get
        sampleRun_isSome).db.vault.rootCommit = some root → Ancestor sampleGit.parents root main :=
  (published_history_append_only sampleGit (fun _ h => by cases h) (eq_some_of_isSome sampleRun_isSome)).2.2

end RefMoves
