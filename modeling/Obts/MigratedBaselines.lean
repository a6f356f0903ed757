import Obts.DirectoryStates

/-!
# Baselines folded from the event log

Devices from before acknowledged baselines get theirs from the events up to the last one that names their main.
The live state creates the folders above a created one as well; the fold does not. So the two agree for the logs
in which every folder that is there has been created by itself.
-/
namespace MigratedBaselines

open ForestEdits SlashPath InsertionOrder DirectoryIntents Metadata DirectoryStates List

section Flat
variable {α : Type*} [ForestOrder α] {es : List (Edit α)} {q : α}

/-- An edit whose creation leaves the ancestors alone. -/
def performFlat (S : Set α) (e : Edit α) : Set α :=
  match e.op with
  | .create => insert e.node S
  | .delete => S \ Set.Ici e.node

def runFlat (S : Set α) (es : List (Edit α)) : Set α := es.foldl performFlat S

/-- A creation of the node itself that no deletion reaches. -/
def CreatedItself (es : List (Edit α)) (q : α) : Prop :=
  ∃ before after, es = before ++ ⟨.create, q⟩ :: after ∧ ∀ e ∈ after, e.op = .delete → ¬ e.node ≤ q

/-- Every node whose last edit is a creation has been created itself. -/
def EachCreatedItself (es : List (Edit α)) : Prop :=
  ∀ q e, LastTouch es q e → e.op = .create → CreatedItself es q

lemma createdItself_concat {e : Edit α} :
    CreatedItself (es ++ [e]) q ↔ e = ⟨.create, q⟩ ∨ (CreatedItself es q ∧ (e.op = .delete → ¬ e.node ≤ q)) := by
  constructor
  · rintro ⟨before, after, hsplit, hkept⟩
    rcases eq_nil_or_concat after with rfl | ⟨init, last, rfl⟩
    · obtain ⟨-, hlast⟩ := append_inj' hsplit rfl
      exact Or.inl (singleton_inj.mp hlast)
    have hassoc : before ++ ⟨.create, q⟩ :: (init ++ [last]) = (before ++ ⟨.create, q⟩ :: init) ++ [last] := by simp
    rw [concat_eq_append, hassoc] at hsplit
    obtain ⟨hinit, hlast⟩ := append_inj' hsplit rfl
    obtain rfl := singleton_inj.mp hlast
    refine Or.inr ⟨⟨before, init, hinit, fun f hf => hkept f ?_⟩, hkept e ?_⟩
    · simp [hf]
    · simp
  · rintro (rfl | ⟨⟨before, after, rfl, hkept⟩, hlast⟩)
    · exact ⟨es, [], rfl, fun e he => absurd he not_mem_nil⟩
    refine ⟨before, after ++ [e], by simp, fun f hf => ?_⟩
    rcases mem_append.mp hf with hf | hf
    · exact hkept f hf
    · rw [mem_singleton.mp hf]
      exact hlast

lemma mem_runFlat_empty : q ∈ runFlat ∅ es ↔ CreatedItself es q := by
  induction es using reverseRecOn with
  | nil =>
    refine iff_of_false (Set.notMem_empty q) ?_
    rintro ⟨before, after, hsplit, -⟩
    simp at hsplit
  | append_singleton es e ih =>
    have hlast : runFlat ∅ (es ++ [e]) = performFlat (runFlat ∅ es) e := foldl_concat performFlat ∅ e es
    rw [createdItself_concat, ← ih, hlast]
    obtain ⟨op, node⟩ := e
    cases op with
    | create => simp [performFlat, eq_comm]
    | delete => simp [performFlat]

lemma mem_run_empty : q ∈ run ∅ es ↔ ∃ e, LastTouch es q e ∧ e.op = .create := by
  rcases exists_lastTouch_or_untouched es q with ⟨e, hlast⟩ | hnone
  · rw [mem_run_of_lastTouch hlast]
    constructor
    · exact fun hop => ⟨e, hlast, hop⟩
    · rintro ⟨f, hf, hop⟩
      exact (mem_run_of_lastTouch hlast).mp ((mem_run_of_lastTouch (S := ∅) hf).mpr hop)
  · rw [mem_run_of_untouched hnone]
    refine iff_of_false (Set.notMem_empty q) ?_
    rintro ⟨e, hlast, -⟩
    exact hnone e hlast.mem hlast.touches

lemma runFlat_subset_run (es : List (Edit α)) : runFlat ∅ es ⊆ run ∅ es := by
  intro q hq
  obtain ⟨before, after, rfl, hkept⟩ := mem_runFlat_empty.mp hq
  apply mem_run_empty.mpr
  rcases exists_lastTouch_or_untouched after q with ⟨e, front, back, rfl, htouc, hback⟩ | hnone
  · refine ⟨e, ⟨before ++ ⟨.create, q⟩ :: front, back, by simp, htouc, hback⟩, ?_⟩
    cases hop : e.op with
    | create => rfl
    | delete =>
      have hle : e.node ≤ q := by simpa [Edit.Touches, hop] using htouc
      exact absurd hle (hkept e (by simp) hop)
  · exact ⟨⟨.create, q⟩, ⟨before, after, rfl, le_rfl, hnone⟩, rfl⟩

/-- Edits of single nodes and edits with ancestors lead to the same nodes just when each of them is created
itself. -/
lemma runFlat_eq_run_iff : runFlat ∅ es = run ∅ es ↔ EachCreatedItself es := by
  constructor
  · intro heq q e hlast hop
    apply mem_runFlat_empty.mp
    rw [heq]
    exact mem_run_empty.mpr ⟨e, hlast, hop⟩
  · intro h
    refine (runFlat_subset_run es).antisymm fun q hq => ?_
    obtain ⟨e, hlast, hop⟩ := mem_run_empty.mp hq
    exact mem_runFlat_empty.mpr (h q e hlast hop)

end Flat

inductive Step where
  /-- Any mutation of the vault rows. -/
  | writeVaults (vaults : List VaultRow)
  /-- An event, and the intents that its payload lists. -/
  | record (event : NewEvent)

def recordedIntents : IntentsField → List DirectoryIntent
  | .array intents => intents
  | .absent | .notArray => []

def applyStep (db : MetadataDb) : Step → MetadataDb
  | .writeVaults vaults => { db with vaults }
  | .record event =>
    let (db, envelope) := appendEvent db event
    applyDirectoryIntents db event.vaultId (recordedIntents event.directoryIntents) envelope.eventSeq event.now

def runSteps (db : MetadataDb) (steps : List Step) : MetadataDb := steps.foldl applyStep db

/-- The events of a vault that the steps append, numbered from `seq` on. -/
def appended (vaultId : String) : Nat → List Step → List EventEnvelope
  | _, [] => []
  | seq, .writeVaults _ :: steps => appended vaultId seq steps
  | seq, .record event :: steps =>
    if event.vaultId = vaultId then
      { eventId := event.eventId
        eventSeq := seq + 1
        eventType := event.eventType
        vaultId := event.vaultId
        directoryIntents := event.directoryIntents
        createdAt := some event.now } :: appended vaultId (seq + 1) steps
    else appended vaultId seq steps

/-- The intents in the payloads, one event after the other. -/
def intentsOf (events : List EventEnvelope) : List DirectoryIntent :=
  events.flatMap fun event => recordedIntents event.directoryIntents

section History

variable {vaultId : String}

lemma appended_append (seq : Nat) (steps others : List Step) : appended vaultId seq (steps ++ others)
      = appended vaultId seq steps ++ appended vaultId (seq + (appended vaultId seq steps).length) others := by
  induction steps generalizing seq with
  | nil => rfl
  | cons step steps ih =>
    cases step with
    | writeVaults vaults => exact ih seq
    | record event =>
      rw [cons_append, appended, appended]
      split
      · rw [ih, cons_append, length_cons]
        congr 3
        omega
      · exact ih seq

/-- The appended events are numbered in order. -/
lemma eventSeq_appended (seq : Nat) (steps : List Step) : (appended vaultId seq steps).map EventEnvelope.eventSeq
      = List.range' (seq + 1) (appended vaultId seq steps).length := by
  induction steps generalizing seq with
  | nil => rfl
  | cons step steps ih =>
    cases step with
    | writeVaults vaults => exact ih seq
    | record event =>
      rw [appended]
      split
      · rw [map_cons, ih, length_cons, range'_succ]
      · exact ih seq

section
variable (db : MetadataDb)

lemma applyDirectoryIntents_events (vaultId : String) (intents : List DirectoryIntent)
    (eventSeq now : Nat) : (applyDirectoryIntents db vaultId intents eventSeq now).events = db.events := by
  rw [applyDirectoryIntents]
  split <;> rfl

lemma applyDirectoryIntents_eventSeq (vaultId : String) (intents : List DirectoryIntent)
    (eventSeq now : Nat) (v : String) :
    (applyDirectoryIntents db vaultId intents eventSeq now).eventSeq v = db.eventSeq v := by
  rw [applyDirectoryIntents]
  split <;> rfl

lemma applyDirectoryIntents_elsewhere {vaultId v : String} (intents : List DirectoryIntent)
    (eventSeq now : Nat) (h : v ≠ vaultId) :
    (applyDirectoryIntents db vaultId intents eventSeq now).explicitDirs v = db.explicitDirs v := by
  rw [applyDirectoryIntents]
  split
  · rfl
  · simp [MetadataDb.explicitDirs, Function.update_of_ne h]

lemma eventSeq_record (event : NewEvent) : (applyStep db (.record event)).eventSeq vaultId
      = db.eventSeq vaultId + if vaultId = event.vaultId then 1 else 0 := by
  rw [applyStep, applyDirectoryIntents_eventSeq, appendEvent_eventSeq]

lemma dirs_record_self (event : NewEvent) : dirs ((applyStep db (.record event)).explicitDirs event.vaultId)
      = run (dirs (db.explicitDirs event.vaultId)) (edits (recordedIntents event.directoryIntents)) := by
  rw [applyStep, dirs_applyDirectoryIntents, appendEvent_explicitDirs]

lemma explicitDirs_record_of_ne {event : NewEvent} (h : vaultId ≠ event.vaultId) :
    (applyStep db (.record event)).explicitDirs vaultId = db.explicitDirs vaultId := by
  rw [applyStep, applyDirectoryIntents_elsewhere _ _ _ _ h, appendEvent_explicitDirs]

lemma events_record (event : NewEvent) :
    (applyStep db (.record event)).events.Sublist (db.events ++ [(appendEvent db event).2]) := by
  rw [applyStep, applyDirectoryIntents_events, appendEvent]
  exact filter_sublist

lemma eventSeq_runSteps (steps : List Step) : (runSteps db steps).eventSeq vaultId
      = db.eventSeq vaultId + (appended vaultId (db.eventSeq vaultId) steps).length := by
  induction steps generalizing db with
  | nil => rfl
  | cons step steps ih =>
    rw [runSteps, foldl_cons, ← runSteps, ih]
    cases step with
    | writeVaults vaults => rfl
    | record event =>
      rw [eventSeq_record, appended]
      by_cases hvault : event.vaultId = vaultId
      · rw [if_pos hvault, if_pos hvault.symm, length_cons]
        omega
      · rw [if_neg hvault, if_neg (Ne.symm hvault), Nat.add_zero]

/-- The live directories after the steps. -/
lemma dirs_runSteps (steps : List Step) : dirs ((runSteps db steps).explicitDirs vaultId)
      = run (dirs (db.explicitDirs vaultId)) (edits (intentsOf (appended vaultId (db.eventSeq vaultId) steps))) := by
  induction steps generalizing db with
  | nil => rfl
  | cons step steps ih =>
    rw [runSteps, foldl_cons, ← runSteps, ih]
    cases step with
    | writeVaults vaults => rfl
    | record event =>
      rw [eventSeq_record, appended]
      by_cases hvault : event.vaultId = vaultId
      · subst hvault
        rw [if_pos rfl, if_pos rfl, dirs_record_self, intentsOf, intentsOf, flatMap_cons, edits, edits, edits,
          map_append, run, run, run, foldl_append]
      · rw [if_neg hvault, if_neg (Ne.symm hvault), explicitDirs_record_of_ne db (Ne.symm hvault), Nat.add_zero]

/-- Of the appended events some may have been pruned. -/
lemma events_runSteps (steps : List Step) : ((runSteps db steps).events.filter (·.vaultId = vaultId)).Sublist
      (db.events.filter (·.vaultId = vaultId) ++ appended vaultId (db.eventSeq vaultId) steps) := by
  induction steps generalizing db with
  | nil =>
    rw [appended, append_nil]
    exact List.Sublist.refl _
  | cons step steps ih =>
    refine (ih _).trans ?_
    cases step with
    | writeVaults vaults => exact List.Sublist.refl _
    | record event =>
      have hlog := (events_record db event).filter (·.vaultId = vaultId)
      rw [filter_append] at hlog
      rw [eventSeq_record, appended]
      by_cases hvault : event.vaultId = vaultId
      · subst hvault
        have hlast : [(appendEvent db event).2].filter (·.vaultId = event.vaultId) = [(appendEvent db event).2] :=
          filter_eq_self.mpr fun e he => by rw [mem_singleton.mp he]; exact decide_eq_true rfl
        rw [hlast] at hlog
        rw [if_pos rfl, if_pos rfl, append_cons]
        exact hlog.append_right _
      · have hnone : [(appendEvent db event).2].filter (·.vaultId = vaultId) = [] :=
          filter_eq_nil_iff.mpr fun e he => by
            rw [mem_singleton.mp he]
            exact fun htest => hvault (of_decide_eq_true htest)
        rw [hnone, append_nil] at hlog
        rw [if_neg hvault, if_neg (Ne.symm hvault), Nat.add_zero]
        exact hlog.append_right _

end

end History

/-- The snapshot of a main, with the number of its event; `commitMain` is the main of an event's commit cursors. -/
structure MainSnapshot where
  eventSeq : Nat
  explicitDirectories : Option (List Path)

/-- One intent of an event, on the set of explicit directories. -/
def foldIntent (explicit : List Path) (intent : DirectoryIntent) : List Path :=
  match intent.op with
  | .delete => explicit.filter fun candidate => !(candidate = intent.path || candidate.startsWithDir intent.path)
  | .create => add explicit intent.path

def metadataDirectorySnapshotForMain (commitMain : EventEnvelope → Option String) (db : MetadataDb) (vaultId : String)
    (main : Option String) : MainSnapshot :=
  match main with
  | none => ⟨0, some []⟩
  | some main =>
    if main = "" then ⟨0, some []⟩
    else if (db.vaults.find? (·.vaultId = vaultId)).any (·.currentMain = main) then
      ⟨db.eventSeq vaultId, some (sort (db.explicitDirs vaultId))⟩
    else
      let events := sortBy (compareOn EventEnvelope.eventSeq) (db.events.filter (·.vaultId = vaultId))
      match events.reverse.find? fun event => event.eventType = .mainAdvanced && commitMain event = some main with
      | none => ⟨0, none⟩
      | some mainEvent =>
        if (events.head?.map EventEnvelope.eventSeq).getD 1 > 1 then ⟨0, none⟩
        else
          let explicit := (intentsOf (events.takeWhile fun event => event.eventSeq ≤ mainEvent.eventSeq)).foldl
            foldIntent []
          ⟨mainEvent.eventSeq, some (sort explicit)⟩

lemma dirs_foldIntent (explicit : List Path) (intent : DirectoryIntent) :
    dirs (foldIntent explicit intent) = performFlat (dirs explicit) intent.edit := by
  ext q
  cases hop : intent.op with
  | create => simp [foldIntent, performFlat, hop, or_comm]
  | delete =>
    have hreach : (!(q = intent.path || q.startsWithDir intent.path)) = true ↔ ¬ intent.path ≤ q := by
      rw [Bool.not_eq_true', ← Bool.not_eq_true, Bool.or_eq_true, decide_eq_true_eq, Path.startsWithDir_iff_lt,
        le_iff_lt_or_eq, or_comm, eq_comm]
    simp only [foldIntent, performFlat, hop, DirectoryIntent.edit_op, mem_dirs, mem_filter, hreach, Set.mem_sdiff,
      Set.mem_Ici, DirectoryIntent.edit_node]

lemma dirs_foldl_foldIntent (intents : List DirectoryIntent) :
    dirs (intents.foldl foldIntent []) = runFlat ∅ (edits intents) := by
  induction intents using reverseRecOn with
  | nil =>
    ext q
    simp [runFlat, edits]
  | append_singleton intents intent ih =>
    have hedits : edits (intents ++ [intent]) = edits intents ++ [intent.edit] := by simp [edits]
    rw [foldl_concat, dirs_foldIntent, ih, hedits]
    exact (foldl_concat performFlat ∅ intent.edit (edits intents)).symm

lemma nodup_foldl_foldIntent (intents : List DirectoryIntent) : (intents.foldl foldIntent []).Nodup := by
  induction intents using reverseRecOn with
  | nil => exact nodup_nil
  | append_singleton intents intent ih =>
    rw [foldl_concat, foldIntent]
    cases intent.op with
    | delete => exact ih.filter _
    | create => exact nodup_add ih _

/-- A canonical snapshot is what is folded just when it lists the same paths. -/
lemma sort_foldl_foldIntent_eq_iff {snapshot : List Path} (h : Canonical snapshot) (intents : List DirectoryIntent) :
    sort (intents.foldl foldIntent []) = snapshot ↔ runFlat ∅ (edits intents) = dirs snapshot := by
  rw [← dirs_foldl_foldIntent]
  constructor
  · rintro rfl
    ext q
    simp
  intro heq
  rw [← sort_ofList_of_canonical h, ofList_of_nodup h.nodup]
  apply sort_eq_of_perm
  rw [perm_ext_iff_of_nodup (nodup_foldl_foldIntent intents) h.nodup]
  exact fun p => Set.ext_iff.mp heq p

section Fold

variable {commitMain : EventEnvelope → Option String} {vaultId main : String} {db : MetadataDb}

/-- What is folded when the whole log is there: the intents up to the last event of the main. -/
lemma snapshot_of_log {before later : List EventEnvelope} {mainEvent : EventEnvelope} (hmain : main ≠ "")
    (hcur : (db.vaults.find? (·.vaultId = vaultId)).any (·.currentMain = main) = false)
    (hlog : db.events.filter (·.vaultId = vaultId) = before ++ mainEvent :: later)
    (hnums : (before ++ mainEvent :: later).map EventEnvelope.eventSeq
      = List.range' 1 (before ++ mainEvent :: later).length)
    (htype : mainEvent.eventType = .mainAdvanced) (hcurs : commitMain mainEvent = some main)
    (hlast : ∀ e ∈ later, e.eventType = .mainAdvanced → commitMain e ≠ some main) :
    metadataDirectorySnapshotForMain commitMain db vaultId (some main)
      = ⟨before.length + 1, some (sort ((intentsOf (before ++ [mainEvent])).foldl foldIntent []))⟩ := by
  have hpair : (before ++ mainEvent :: later).Pairwise fun a b => a.eventSeq < b.eventSeq := by
    apply pairwise_map.mp
    rw [hnums]
    exact pairwise_lt_range'
  obtain ⟨-, hrest, hbef⟩ := pairwise_append.mp hpair
  have hlater := (pairwise_cons.mp hrest).1
  have hsort : sortBy (compareOn EventEnvelope.eventSeq) (before ++ mainEvent :: later)
      = before ++ mainEvent :: later := by
    apply sortBy_of_pairwise
    refine hpair.imp fun {a b} hlt => ?_
    rw [compareOn, compare_lt_iff_lt.mpr hlt]
    rfl
  have hseq : mainEvent.eventSeq = before.length + 1 := by
    have hat := congrArg (·[before.length]?) hnums
    simp only [map_append, map_cons, length_append, length_cons] at hat
    rw [getElem?_append_right (by simp), getElem?_range' (by omega)] at hat
    simp only [length_map, Nat.sub_self, getElem?_cons_zero, Option.some.injEq] at hat
    omega
  have hfind : (before ++ mainEvent :: later).reverse.find?
      (fun event => event.eventType = .mainAdvanced && commitMain event = some main) = some mainEvent := by
    have hnone : later.reverse.find?
        (fun event => event.eventType = .mainAdvanced && commitMain event = some main) = none := by
      apply find?_eq_none.mpr
      intro e he htest
      rw [Bool.and_eq_true, decide_eq_true_eq, decide_eq_true_eq] at htest
      exact hlast e (mem_reverse.mp he) htest.1 htest.2
    rw [reverse_append, reverse_cons, append_assoc, find?_append, hnone, singleton_append,
      find?_cons_of_pos (by rw [htype, hcurs]; simp)]
    rfl
  have hhead : ¬ ((before ++ mainEvent :: later).head?.map EventEnvelope.eventSeq).getD 1 > 1 := by
    rw [← head?_map, hnums, length_append, length_cons, ← Nat.add_assoc, range'_succ]
    simp
  have htake : (before ++ mainEvent :: later).takeWhile (fun event => event.eventSeq ≤ mainEvent.eventSeq)
      = before ++ [mainEvent] := by
    rw [takeWhile_append_of_pos, takeWhile_cons_of_pos (by simp)]
    · congr 2
      cases later with
      | nil => rfl
      | cons next later =>
        have hlt := hlater next mem_cons_self
        exact takeWhile_cons_of_neg (by simpa using hlt)
    · intro e he
      exact decide_eq_true (hbef e he mainEvent mem_cons_self).le
  simp only [metadataDirectorySnapshotForMain]
  rw [if_neg hmain, hcur, hlog, hsort, hfind]
  simp only [Bool.false_eq_true, if_false]
  rw [if_neg hhead, htake, hseq]

/-- A vault without events and without directories. -/
structure Fresh (db : MetadataDb) (vaultId : String) : Prop where
  eventSeq : db.eventSeq vaultId = 0
  explicitDirs : db.explicitDirs vaultId = []
  events : db.events.filter (·.vaultId = vaultId) = []

lemma canonical_runSteps (h : Canonical (db.explicitDirs vaultId)) (steps : List Step) :
    Canonical ((runSteps db steps).explicitDirs vaultId) := by
  induction steps generalizing db with
  | nil => exact h
  | cons step steps ih =>
    apply ih
    cases step with
    | writeVaults vaults => exact h
    | record event =>
      by_cases hvault : vaultId = event.vaultId
      · subst hvault
        exact canonical_applyDirectoryIntents (by exact h) _ _ _
      · rwa [explicitDirs_record_of_ne db hvault]

/-- When as many events are retained as were numbered, the log is what the steps appended. -/
lemma events_of_retained (h : Fresh db vaultId) {steps : List Step}
    (hret : ((runSteps db steps).events.filter (·.vaultId = vaultId)).length = (runSteps db steps).eventSeq vaultId) :
    (runSteps db steps).events.filter (·.vaultId = vaultId) = appended vaultId 0 steps := by
  have hsub := @events_runSteps vaultId db steps
  rw [h.events, h.eventSeq, nil_append] at hsub
  apply hsub.eq_of_length
  rw [hret, eventSeq_runSteps, h.eventSeq, Nat.zero_add]

/-- The list folded for a main is the live one right after its last event just when every folder that the intents
leave there was created itself. -/
theorem folded_snapshot_iff (commitMain : EventEnvelope → Option String) {db : MetadataDb} {vaultId main : String}
    (hfresh : Fresh db vaultId) (before later : List Step) {event : NewEvent} (hvault : event.vaultId = vaultId)
    (htype : event.eventType = .mainAdvanced)
    (hcursor : commitMain (appendEvent (runSteps db before) event).2 = some main)
    (hlast : ∀ e ∈ (runSteps db (before ++ .record event :: later)).events, e.vaultId = vaultId →
      e.eventType = .mainAdvanced → commitMain e = some main →
      e.eventSeq ≤ (appendEvent (runSteps db before) event).2.eventSeq)
    (hretained : ((runSteps db (before ++ .record event :: later)).events.filter (·.vaultId = vaultId)).length
      = (runSteps db (before ++ .record event :: later)).eventSeq vaultId)
    (hmain : main ≠ "") (hcurrent : ((runSteps db (before ++ .record event :: later)).vaults.find?
      (·.vaultId = vaultId)).any (·.currentMain = main) = false) :
    (metadataDirectorySnapshotForMain commitMain (runSteps db (before ++ .record event :: later)) vaultId
        (some main)).explicitDirectories = some ((runSteps db (before ++ [.record event])).explicitDirs vaultId) ↔
      EachCreatedItself (edits (intentsOf (appended vaultId 0 (before ++ [.record event])))) := by
  have hseq : (runSteps db before).eventSeq vaultId = (appended vaultId 0 before).length := by
    rw [eventSeq_runSteps, hfresh.eventSeq, Nat.zero_add]
  have hone : appended vaultId (appended vaultId 0 before).length [.record event]
      = [(appendEvent (runSteps db before) event).2] := by
    rw [appended, if_pos hvault, ← hseq, ← hvault]
    rfl
  have hupTo : appended vaultId 0 (before ++ [.record event])
      = appended vaultId 0 before ++ [(appendEvent (runSteps db before) event).2] := by
    rw [appended_append, Nat.zero_add, hone]
  have hall : appended vaultId 0 (before ++ .record event :: later)
      = appended vaultId 0 before ++ (appendEvent (runSteps db before) event).2 ::
        appended vaultId (appended vaultId 0 (before ++ [.record event])).length later := by
    rw [append_cons, appended_append, Nat.zero_add, hupTo]
    simp
  have hlog := events_of_retained hfresh hretained
  have hnums := @eventSeq_appended vaultId 0 (before ++ .record event :: later)
  have hcan : Canonical ((runSteps db (before ++ [.record event])).explicitDirs vaultId) :=
    canonical_runSteps (hfresh.explicitDirs ▸ canonical_nil) _
  have hdirs := @dirs_runSteps vaultId db (before ++ [.record event])
  have hempty : dirs (db.explicitDirs vaultId) = ∅ := by
    rw [hfresh.explicitDirs]
    ext q
    simp
  rw [hall] at hlog hnums
  have hsnap := snapshot_of_log hmain hcurrent hlog hnums htype hcursor (by
    intro e he hetype hecur
    have hmem : e ∈ (runSteps db (before ++ .record event :: later)).events.filter (·.vaultId = vaultId) := by
      rw [hlog]
      exact mem_append_right _ (mem_cons_of_mem _ he)
    have hle := hlast e (mem_filter.mp hmem).1 (of_decide_eq_true (mem_filter.mp hmem).2) hetype hecur
    have hafter : e.eventSeq ∈ range' ((appended vaultId 0 (before ++ [.record event])).length + 1) _ :=
      @eventSeq_appended vaultId _ later ▸ mem_map_of_mem he
    rw [hupTo, length_append, length_singleton, mem_range'_1] at hafter
    rw [appendEvent_snd_eventSeq, hvault, hseq] at hle
    omega)
  rw [hsnap, Option.some.injEq, ← hupTo, sort_foldl_foldIntent_eq_iff hcan, hdirs, hfresh.eventSeq, hempty]
  exact runFlat_eq_run_iff

end Fold

/-- Each event of the sample advances to the main that it is named after. -/
def cursorOf (event : EventEnvelope) : Option String := some event.eventId

def mainEvent (main : String) (intents : List DirectoryIntent) : NewEvent where
  eventId := main
  eventType := .mainAdvanced
  vaultId := "vault"
  directoryIntents := .array intents
  now := 0

def advancedTo (main : String) : Step := .writeVaults [⟨"vault", .active, main⟩]

theorem folded_snapshot_iff_two_events :
    (metadataDirectorySnapshotForMain cursorOf
      (runSteps {} [.record (mainEvent "m1" [⟨.create, ⟨"a"⟩⟩, ⟨.create, ⟨"a/b"⟩⟩]),
        .record (mainEvent "m2" [⟨.delete, ⟨"a"⟩⟩]), advancedTo "m2"]) "vault" (some "m1")).explicitDirectories
        = some ((runSteps {}
          [.record (mainEvent "m1" [⟨.create, ⟨"a"⟩⟩, ⟨.create, ⟨"a/b"⟩⟩])]).explicitDirs "vault") ↔
      EachCreatedItself (edits (intentsOf (appended "vault" 0
        [.record (mainEvent "m1" [⟨.create, ⟨"a"⟩⟩, ⟨.create, ⟨"a/b"⟩⟩])]))) := by
  have hfresh : Fresh {} "vault" := ⟨rfl, rfl, rfl⟩
  exact folded_snapshot_iff cursorOf hfresh []
    [.record (mainEvent "m2" [⟨.delete, ⟨"a"⟩⟩]), advancedTo "m2"] rfl rfl rfl
    (by decide) (by decide) (by decide) (by decide)

/-- The folder `a`, created together with `a/b`, is not in the folded list. -/
theorem implicit_folder_missing :
    ¬ ∀ (commitMain : EventEnvelope → Option String) (db : MetadataDb) (vaultId main : String),
      Fresh db vaultId → ∀ (before later : List Step) (event : NewEvent), event.vaultId = vaultId →
      event.eventType = .mainAdvanced → commitMain (appendEvent (runSteps db before) event).2 = some main →
      (∀ e ∈ (runSteps db (before ++ .record event :: later)).events, e.vaultId = vaultId →
        e.eventType = .mainAdvanced → commitMain e = some main →
        e.eventSeq ≤ (appendEvent (runSteps db before) event).2.eventSeq) →
      ((runSteps db (before ++ .record event :: later)).events.filter (·.vaultId = vaultId)).length
        = (runSteps db (before ++ .record event :: later)).eventSeq vaultId →
      main ≠ "" → ((runSteps db (before ++ .record event :: later)).vaults.find?
        (·.vaultId = vaultId)).any (·.currentMain = main) = false →
      (metadataDirectorySnapshotForMain commitMain (runSteps db (before ++ .record event :: later)) vaultId
        (some main)).explicitDirectories = some ((runSteps db (before ++ [.record event])).explicitDirs vaultId) := by
  intro hclaim
  have hsame := hclaim cursorOf {} "vault" "m1" ⟨rfl, rfl, rfl⟩ [] [.record (mainEvent "m2" []), advancedTo "m2"]
    (mainEvent "m1" [⟨.create, ⟨"a/b"⟩⟩]) rfl rfl rfl (by decide) (by decide) (by decide) (by decide)
  revert hsame
  decide

end MigratedBaselines
