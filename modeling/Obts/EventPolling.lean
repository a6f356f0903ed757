import Obts.Metadata

/-!
# Polling events

A vault's events carry consecutive numbers and are pruned at every append: expired ones go,
and of the rest only the newest up to a limit stay. A poll asks for everything after a cursor
and is refused when the cursor lies before the oldest event that is left. The refusal looks at
the oldest event only, so it is sound as long as the events left are the newest ones.

The clock is read twice by an append, once for the event and once for the cutoff, and neither
reading has to be later than the earlier ones. The ghost log keeps every event ever appended.
-/
namespace EventPolling

open Metadata InsertionOrder List

/-- An event to append and the clock as pruning reads it. -/
structure Append extends NewEvent where
  pruneNow : Nat

variable (db : MetadataDb)

/-- `appendEvent` with its two readings of the clock. -/
def appendEvent (a : Append) : MetadataDb × EventEnvelope :=
  let eventSeq := db.eventSeq a.vaultId + 1
  let envelope : EventEnvelope :=
    { eventId := a.eventId
      eventSeq
      eventType := a.eventType
      vaultId := a.vaultId
      directoryIntents := a.directoryIntents
      createdAt := some a.now }
  let db := { db with
    eventSeqByVault := Function.update db.eventSeqByVault a.vaultId (some eventSeq)
    events := db.events ++ [envelope] }
  (pruneVaultEvents db a.vaultId a.pruneNow, envelope)

inductive EventPage where
  | expired (currentEventSeq oldestAvailableEventSeq : Nat)
  | page (events : List EventEnvelope) (currentEventSeq : Nat)

def vaultEvents (vaultId : String) : List EventEnvelope :=
  sortBy (compareOn EventEnvelope.eventSeq) (db.events.filter (·.vaultId = vaultId))

def sendEventPage (vaultId : String) (after : Nat) : EventPage :=
  let events := vaultEvents db vaultId
  let current := db.eventSeq vaultId
  match events.head? with
  | none =>
    if 0 < current ∧ after < current then .expired current (current + 1)
    else .page (events.filter fun event => after < event.eventSeq) current
  | some oldest =>
    if after + 1 < oldest.eventSeq then .expired current oldest.eventSeq
    else .page (events.filter fun event => after < event.eventSeq) current

structure Polled where
  db : MetadataDb
  log : List EventEnvelope

variable (s : Polled)

def Polled.append (a : Append) : Polled :=
  let (db, envelope) := appendEvent s.db a
  ⟨db, s.log ++ [envelope]⟩

def run (appends : List Append) : Polled := appends.foldl Polled.append s

/-- No event was appended yet. -/
def start (db : MetadataDb) : Polled :=
  ⟨{ db with events := [], eventSeqByVault := fun _ => none }, []⟩

/-- Everything appended to the vault, in order. -/
def Polled.logOf (vaultId : String) : List EventEnvelope :=
  s.log.filter (·.vaultId = vaultId)

/-- The events of the vault that are left, in the order they were appended. -/
def Polled.leftOf (vaultId : String) : List EventEnvelope :=
  s.db.events.filter (·.vaultId = vaultId)

def isFresh (pruneNow : Nat) (event : EventEnvelope) : Bool :=
  match event.createdAt with
  | none => true
  | some createdAt => pruneNow - eventRetentionMs ≤ createdAt

/-- The event that the append adds. -/
def added (a : Append) : EventEnvelope := (appendEvent s.db a).2

/-- No event of the vault expires while an older one stays. -/
def ExpiresInOrder (a : Append) : Prop :=
  (s.leftOf a.vaultId ++ [added s a]).Pairwise fun older newer =>
    isFresh a.pruneNow older = true → isFresh a.pruneNow newer = true

instance (s : Polled) (a : Append) : Decidable (ExpiresInOrder s a) := by
  unfold ExpiresInOrder
  infer_instance

/-- Every step of the run meets the condition in the state it starts from. -/
def AllExpireInOrder : Polled → List Append → Prop
  | _, [] => True
  | s, a :: appends => ExpiresInOrder s a ∧ AllExpireInOrder (s.append a) appends

/-- A refusal, or exactly the events after the cursor. -/
def NothingSkipped (s : Polled) (vaultId : String) (after : Nat) : Prop :=
  match sendEventPage s.db vaultId after with
  | .expired _ _ => True
  | .page events current =>
    current = s.db.eventSeq vaultId ∧ events = (s.logOf vaultId).drop after ∧
      events.map (·.eventSeq) = List.range' (after + 1) (s.db.eventSeq vaultId - after)

instance (s : Polled) (vaultId : String) (after : Nat) : Decidable (NothingSkipped s vaultId after) := by
  unfold NothingSkipped
  split <;> infer_instance

/-- The log is numbered from one, identifiers are distinct, and the events left are its end. -/
structure Suffix (s : Polled) : Prop where
  numbered : ∀ vaultId, (s.logOf vaultId).map (·.eventSeq) = List.range' 1 (s.db.eventSeq vaultId)
  nodup : (s.log.map (·.eventId)).Nodup
  left : ∀ vaultId, s.leftOf vaultId <:+ s.logOf vaultId

lemma suffix_start (db : MetadataDb) : Suffix (start db) where
  numbered _ := rfl
  nodup := nodup_nil
  left _ := suffix_refl _

/-- Filtering by a test that is upward closed along a list keeps an end of it. -/
lemma filter_suffix_of_pairwise {α : Type*} {p : α → Bool} {l : List α}
    (h : l.Pairwise fun a b => p a → p b) : l.filter p <:+ l := by
  induction l with
  | nil => exact suffix_refl _
  | cons a l ih =>
    obtain ⟨ha, hl⟩ := pairwise_cons.mp h
    by_cases hp : p a = true
    · have hall : (a :: l).filter p = a :: l := by
        refine filter_eq_self.mpr fun b hb => ?_
        rcases mem_cons.mp hb with rfl | hb
        · exact hp
        · exact ha b hb hp
      rw [hall]
    · rw [filter_cons_of_neg hp]
      exact (ih hl).trans (suffix_cons a l)

/-- Selecting by identifier the elements of a sublist gives the sublist. -/
lemma filter_contains_of_sublist {kept events : List EventEnvelope} (h : kept.Sublist events)
    (hnodup : (events.map (·.eventId)).Nodup) :
    events.filter (fun event => (kept.map (·.eventId)).contains event.eventId) = kept := by
  induction h with
  | slnil => rfl
  | @cons kept events e h ih =>
    obtain ⟨he, hevs⟩ := nodup_cons.mp hnodup
    have hout : e.eventId ∉ kept.map (·.eventId) := fun hmem => he ((h.map _).mem hmem)
    rw [filter_cons_of_neg (by simpa using hout)]
    exact ih hevs
  | @cons_cons kept events e h ih =>
    obtain ⟨he, hevs⟩ := nodup_cons.mp hnodup
    rw [filter_cons_of_pos (by simp)]
    congr 1
    refine Eq.trans (filter_congr fun f hf => ?_) (ih hevs)
    have hne : f.eventId ≠ e.eventId := by
      intro heq
      exact he (mem_map.mpr ⟨f, hf, heq⟩)
    simp [hne]

section Step

variable {s : Polled} {a : Append} {vaultId : String}

lemma added_vaultId : (added s a).vaultId = a.vaultId := rfl

lemma append_log : (s.append a).log = s.log ++ [added s a] := rfl

lemma append_eventSeq (vaultId : String) : (s.append a).db.eventSeq vaultId
    = s.db.eventSeq vaultId + if vaultId = a.vaultId then 1 else 0 := by
  by_cases h : vaultId = a.vaultId
  · subst h
    simp [Polled.append, appendEvent, pruneVaultEvents, MetadataDb.eventSeq]
  · simp [Polled.append, appendEvent, pruneVaultEvents, MetadataDb.eventSeq, h]

lemma append_logOf_self : (s.append a).logOf a.vaultId = s.logOf a.vaultId ++ [added s a] := by
  simp [Polled.logOf, append_log, added_vaultId]

lemma append_logOf_of_ne (h : vaultId ≠ a.vaultId) : (s.append a).logOf vaultId = s.logOf vaultId := by
  simp [Polled.logOf, append_log, added_vaultId, Ne.symm h]

/-- The identifiers that pruning keeps. -/
def keptIds (s : Polled) (a : Append) : List String :=
  let fresh := (s.leftOf a.vaultId ++ [added s a]).filter (isFresh a.pruneNow)
  (fresh.drop (fresh.length - eventRetentionLimit)).map (·.eventId)

lemma append_events : (s.append a).db.events = (s.db.events ++ [added s a]).filter
    fun event => event.vaultId ≠ a.vaultId || (keptIds s a).contains event.eventId := by
  have hvault : (s.db.events ++ [added s a]).filter (·.vaultId = a.vaultId)
      = s.leftOf a.vaultId ++ [added s a] := by
    simp [Polled.leftOf, added_vaultId]
  unfold keptIds
  rw [← hvault]
  rfl

lemma append_leftOf_of_ne (h : vaultId ≠ a.vaultId) : (s.append a).leftOf vaultId = s.leftOf vaultId := by
  rw [Polled.leftOf, append_events, filter_filter, Polled.leftOf, filter_append]
  have hadded : ¬ (added s a).vaultId = vaultId := fun heq => h (heq.symm.trans added_vaultId)
  rw [filter_cons_of_neg (by simp [hadded]), filter_nil, append_nil]
  refine filter_congr fun event _ => ?_
  by_cases hv : event.vaultId = vaultId
  · simp [hv, h]
  · simp [hv]

/-- Pruning the vault keeps the fresh events up to the limit. -/
lemma append_leftOf_self (hnodup : ((s.leftOf a.vaultId ++ [added s a]).map (·.eventId)).Nodup) :
    (s.append a).leftOf a.vaultId = let fresh := (s.leftOf a.vaultId ++ [added s a]).filter (isFresh a.pruneNow)
      fresh.drop (fresh.length - eventRetentionLimit) := by
  have hsub : (((s.leftOf a.vaultId ++ [added s a]).filter (isFresh a.pruneNow)).drop
      (((s.leftOf a.vaultId ++ [added s a]).filter (isFresh a.pruneNow)).length
        - eventRetentionLimit)).Sublist (s.leftOf a.vaultId ++ [added s a]) :=
    (drop_sublist _ _).trans filter_sublist
  have hvault : (s.db.events ++ [added s a]).filter (·.vaultId = a.vaultId)
      = s.leftOf a.vaultId ++ [added s a] := by
    simp [Polled.leftOf, added_vaultId]
  rw [Polled.leftOf, append_events, filter_filter]
  have htest : (fun event : EventEnvelope => decide (event.vaultId = a.vaultId) &&
        (decide (event.vaultId ≠ a.vaultId) || (keptIds s a).contains event.eventId))
      = fun event => (keptIds s a).contains event.eventId && decide (event.vaultId = a.vaultId) := by
    funext event
    by_cases hv : event.vaultId = a.vaultId
    · simp [hv]
    · simp [hv]
  rw [htest, ← filter_filter, hvault]
  exact filter_contains_of_sublist hsub hnodup

/-- The identifier of a new event is not in the log. -/
def IsNew (s : Polled) (a : Append) : Prop := a.eventId ∉ s.log.map (·.eventId)

/-- Step: an append whose events expire in order keeps the events left an end of the log. -/
lemma suffix_append (h : Suffix s) (hnew : IsNew s a) (horder : ExpiresInOrder s a) : Suffix (s.append a) where
  numbered vaultId := by
    by_cases hv : vaultId = a.vaultId
    · subst hv
      rw [append_logOf_self, append_eventSeq, if_pos rfl, map_append, h.numbered, range'_concat]
      simp [added, appendEvent, Nat.add_comm]
    · rw [append_logOf_of_ne hv, append_eventSeq, if_neg hv, h.numbered, Nat.add_zero]
  nodup := by
    exact nodup_map_concat h.nodup hnew
  left vaultId := by
    by_cases hv : vaultId = a.vaultId
    · subst hv
      have hleft : s.leftOf a.vaultId ++ [added s a] <:+ s.logOf a.vaultId ++ [added s a] := by
        obtain ⟨older, holder⟩ := h.left a.vaultId
        exact ⟨older, by rw [← append_assoc, holder]⟩
      have hlog : ((s.logOf a.vaultId ++ [added s a]).map (·.eventId)).Nodup := by
        have hall : ((s.append a).log.map (·.eventId)).Nodup := by
          exact nodup_map_concat h.nodup hnew
        rw [← append_logOf_self]
        exact hall.sublist (filter_sublist.map _)
      rw [append_leftOf_self (hlog.sublist (hleft.sublist.map _)), append_logOf_self]
      exact ((drop_suffix _ _).trans (filter_suffix_of_pairwise horder)).trans hleft
    · rw [append_leftOf_of_ne hv, append_logOf_of_ne hv]
      exact h.left vaultId

end Step

variable {s : Polled}

lemma vaultEvents_eq (h : Suffix s) (vaultId : String) : vaultEvents s.db vaultId = s.leftOf vaultId := by
  have hsort : ((s.logOf vaultId).map (·.eventSeq)).Pairwise (· < ·) := by
    rw [h.numbered]
    exact pairwise_lt_range'
  have hleft : ((s.leftOf vaultId).map (·.eventSeq)).Pairwise (· < ·) :=
    hsort.sublist ((h.left vaultId).sublist.map _)
  refine sortBy_of_pairwise ((pairwise_map.mp hleft).imp fun hlt => ?_)
  simp only [compareOn, Std.isLE_compare]
  exact hlt.le

/-- The events after a cursor, when the numbers run on from some start. -/
lemma filter_eq_drop {events : List EventEnvelope} {first after : Nat}
    (h : events.map (·.eventSeq) = List.range' first events.length) (hfirst : first ≤ after + 1) :
    events.filter (fun event => after < event.eventSeq) = events.drop (after + 1 - first) := by
  induction events generalizing first with
  | nil => simp
  | cons e events ih =>
    rw [map_cons, length_cons, range'_succ, cons.injEq] at h
    by_cases hafter : after < e.eventSeq
    · have hzero : after + 1 - first = 0 := by omega
      have hall : (e :: events).filter (fun event => after < event.eventSeq) = e :: events := by
        refine filter_eq_self.mpr fun f hf => ?_
        rcases mem_cons.mp hf with rfl | hf
        · simpa using hafter
        have hmem : f.eventSeq ∈ range' (first + 1) events.length := by
          rw [← h.2]
          exact mem_map_of_mem hf
        have := (mem_range'_1.mp hmem).1
        simpa using (by omega : after < f.eventSeq)
      rw [hall, hzero, drop_zero]
    · have hsucc : after + 1 - first = (after + 1 - (first + 1)) + 1 := by omega
      rw [filter_cons_of_neg (by simpa using hafter), hsucc, drop_succ_cons]
      exact ih h.2 (by omega)

/-- In a state whose events left are an end of the log no poll skips an event. -/
lemma nothingSkipped_of_suffix (h : Suffix s) (vaultId : String) {after : Nat}
    (hafter : after ≤ s.db.eventSeq vaultId) : NothingSkipped s vaultId after := by
  have hnum := h.numbered vaultId
  obtain ⟨gone, hgone⟩ := h.left vaultId
  have hlen : gone.length + (s.leftOf vaultId).length = s.db.eventSeq vaultId := by
    have := congrArg length hnum
    rw [← hgone] at this
    simpa using this
  have hleft : (s.leftOf vaultId).map (·.eventSeq)
      = range' (gone.length + 1) (s.leftOf vaultId).length := by
    have hdrop := congrArg (drop gone.length) hnum
    rw [← hgone, map_append, drop_left' (by simp)] at hdrop
    rw [hdrop, drop_range']
    congr 1
    · omega
    · omega
  -- what a cursor at or after the gone events selects
  have hpage : gone.length ≤ after → (s.leftOf vaultId).filter (fun event => after < event.eventSeq)
        = (s.logOf vaultId).drop after ∧
      ((s.logOf vaultId).drop after).map (·.eventSeq)
        = range' (after + 1) (s.db.eventSeq vaultId - after) := by
    intro hle
    constructor
    · rw [filter_eq_drop hleft (by omega), ← hgone, drop_append]
      have hnil : gone.drop after = [] := drop_eq_nil_of_le hle
      rw [hnil, nil_append]
      congr 1
      omega
    · rw [map_drop, hnum, drop_range']
      congr 1
      omega
  have hdone : gone.length ≤ after → True ∧ (s.leftOf vaultId).filter (fun event => after < event.eventSeq)
        = (s.logOf vaultId).drop after ∧
      ((s.leftOf vaultId).filter (fun event => after < event.eventSeq)).map (·.eventSeq)
        = range' (after + 1) (s.db.eventSeq vaultId - after) := by
    intro hle
    obtain ⟨hflt, hrange⟩ := hpage hle
    exact ⟨trivial, hflt, by rw [hflt, hrange]⟩
  unfold NothingSkipped sendEventPage
  simp only [vaultEvents_eq h]
  cases hhead : (s.leftOf vaultId).head? with
  | none =>
    have hnil : (s.leftOf vaultId).length = 0 := by
      rw [head?_eq_none_iff.mp hhead, length_nil]
    by_cases hexp : 0 < s.db.eventSeq vaultId ∧ after < s.db.eventSeq vaultId
    · simp [hexp]
    · simp only [hexp, if_false]
      exact hdone (by omega)
  | some oldest =>
    have hold : oldest.eventSeq = gone.length + 1 := by
      cases hlefO : s.leftOf vaultId with
      | nil => simp [hlefO] at hhead
      | cons first newer =>
        obtain rfl : first = oldest := by simpa [hlefO] using hhead
        rw [hlefO, map_cons, length_cons, range'_succ, cons.injEq] at hleft
        exact hleft.1
    by_cases hexp : after + 1 < oldest.eventSeq
    · simp [hexp]
    · simp only [hexp, if_false]
      exact hdone (by omega)

/-- Identifiers of the appended events differ from each other. -/
abbrev DistinctIds (appends : List Append) : Prop := (appends.map (·.eventId)).Nodup

/-- Run: the invariant holds after appends that each expire events in order. -/
lemma suffix_run {appends : List Append} (h : Suffix s)
    (hids : (s.log.map (·.eventId) ++ appends.map (·.eventId)).Nodup)
    (horder : AllExpireInOrder s appends) : Suffix (run s appends) := by
  induction appends generalizing s with
  | nil => exact h
  | cons a appends ih =>
    have hnew : IsNew s a := by
      intro hmem
      exact (nodup_append.mp hids).2.2 _ hmem _ mem_cons_self rfl
    have hlog : ((s.append a).log.map (·.eventId) ++ appends.map (·.eventId)).Nodup := by
      rw [append_log, map_append, append_assoc]
      exact hids
    exact ih (suffix_append h hnew horder.1) hlog horder.2

/-- Along any run of appends in which no event expires while an older one stays, every poll
at a cursor up to the current number is refused or returns all later events. -/
theorem poll_skips_nothing (db : MetadataDb) (appends : List Append)
    (hids : DistinctIds appends) (horder : AllExpireInOrder (start db) appends) (vaultId : String)
    (after : Nat) (hafter : after ≤ (run (start db) appends).db.eventSeq vaultId) :
    NothingSkipped (run (start db) appends) vaultId after :=
  nothingSkipped_of_suffix (suffix_run (suffix_start db) (by simpa [start] using hids) horder)
    vaultId hafter

/-- One event of a vault. -/
def sampleAppend (id : String) (now pruneNow : Nat) : Append :=
  { eventId := id, eventType := .mainAdvanced, vaultId := "vault", now, pruneNow }

theorem poll_skips_nothing_two :
    NothingSkipped (run (start {}) [sampleAppend "a" 5 5, sampleAppend "b" 6 6]) "vault" 1 :=
  poll_skips_nothing {} [sampleAppend "a" 5 5, sampleAppend "b" 6 6] (by decide)
    ⟨by decide, by decide, trivial⟩ "vault" 1 (by decide)

/-- The first event is stamped by a clock that runs ahead, which is then set back: a month
later the second event expires and the first one stays. -/
def setBackClock : List Append :=
  [sampleAppend "a" (2 * eventRetentionMs) (2 * eventRetentionMs), sampleAppend "b" 0 0,
    sampleAppend "c" (eventRetentionMs + 1) (eventRetentionMs + 1)]

/-- A poll from the start then returns events one and three without a word about two. -/
theorem poll_skips_expired_event : DistinctIds setBackClock ∧
    (match sendEventPage (run (start {}) setBackClock).db "vault" 0 with
      | .expired _ _ => []
      | .page events _ => events.map (·.eventSeq)) = [1, 3] ∧
    ¬ NothingSkipped (run (start {}) setBackClock) "vault" 0 := by
  exact ⟨by decide, by decide +kernel, by decide +kernel⟩

/-- A device that polls a vault: the number that a pull or a refusal brought it to, its cursor, and
the events received since then. -/
structure Follower where
  since : Nat := 0
  cursor : Nat := 0
  received : List EventEnvelope := []

/-- `pollRemoteEventsAndApply`, which takes the current number from both answers. -/
def Follower.poll (f : Follower) : EventPage → Follower
  | .expired current _ => ⟨current, current, []⟩
  | .page events current => { f with cursor := current, received := f.received ++ events }

/-- `pull` stands for a poll that finds something to pull as well. -/
inductive Turn where
  | append (a : Append)
  | poll
  | pull (eventSeq : Nat)

def appendsOf (turns : List Turn) : List Append :=
  turns.filterMap fun | .append a => some a | _ => none

/-- A pull to an older number leaves the cursor. -/
def turn (vaultId : String) : Polled × Follower → Turn → Polled × Follower
  | (s, f), .append a => (s.append a, f)
  | (s, f), .poll => (s, f.poll (sendEventPage s.db vaultId f.cursor))
  | (s, f), .pull eventSeq =>
    let pulled := min eventSeq (s.db.eventSeq vaultId)
    (s, if f.cursor < pulled then ⟨pulled, pulled, []⟩ else f)

/-- Each event from `since` up to the cursor was received once, in order. -/
def HoldsAll (vaultId : String) : Polled × Follower → Prop
  | (s, f) => f.since ≤ f.cursor ∧ f.cursor ≤ s.db.eventSeq vaultId ∧
    f.received = ((s.logOf vaultId).take f.cursor).drop f.since

section Follow

variable {s : Polled} {f : Follower} {vaultId : String}

lemma length_logOf (h : Suffix s) (vaultId : String) : (s.logOf vaultId).length = s.db.eventSeq vaultId := by
  simpa using congrArg length (h.numbered vaultId)

lemma holdsAll_since {n : Nat} (h : n ≤ s.db.eventSeq vaultId) : HoldsAll vaultId (s, ⟨n, n, []⟩) :=
  ⟨le_rfl, h, (drop_eq_nil_of_le (length_take_le _ _)).symm⟩

lemma holdsAll_append (hs : Suffix s) (h : HoldsAll vaultId (s, f)) (a : Append) :
    HoldsAll vaultId (s.append a, f) := by
  obtain ⟨hsince, hcursor, hreceived⟩ := h
  have hlog : (s.append a).logOf vaultId = s.logOf vaultId ++ _ := filter_append _ _
  refine ⟨hsince, hcursor.trans (append_eventSeq vaultId ▸ Nat.le_add_right _ _), ?_⟩
  rwa [hlog, take_append_of_le_length (hcursor.trans_eq (length_logOf hs vaultId).symm)]

lemma holdsAll_poll (hs : Suffix s) (h : HoldsAll vaultId (s, f)) :
    HoldsAll vaultId (s, f.poll (sendEventPage s.db vaultId f.cursor)) := by
  obtain ⟨hsince, hcursor, hreceived⟩ := h
  have hpage := nothingSkipped_of_suffix hs vaultId hcursor
  have hlen := length_logOf hs vaultId
  unfold NothingSkipped at hpage
  cases hsent : sendEventPage s.db vaultId f.cursor with
  | expired current oldest =>
    have hcurrent : current = s.db.eventSeq vaultId := by
      unfold sendEventPage at hsent
      grind
    exact holdsAll_since hcurrent.le
  | page events current =>
    obtain ⟨rfl, rfl, -⟩ := hsent ▸ hpage
    refine ⟨hsince.trans hcursor, le_rfl, ?_⟩
    have htake : f.since ≤ ((s.logOf vaultId).take f.cursor).length := by
      rw [length_take_of_le (hcursor.trans_eq hlen.symm)]
      exact hsince
    calc f.received ++ (s.logOf vaultId).drop f.cursor
        = ((s.logOf vaultId).take f.cursor ++ (s.logOf vaultId).drop f.cursor).drop f.since := by
          rw [drop_append_of_le_length htake, hreceived]
      _ = ((s.logOf vaultId).take (s.db.eventSeq vaultId)).drop f.since := by
          rw [take_append_drop, ← hlen, take_length]

lemma holdsAll_turns {turns : List Turn} (hs : Suffix s) (h : HoldsAll vaultId (s, f))
    (hids : (s.log.map (·.eventId) ++ (appendsOf turns).map (·.eventId)).Nodup)
    (horder : AllExpireInOrder s (appendsOf turns)) : HoldsAll vaultId (turns.foldl (turn vaultId) (s, f)) := by
  induction turns generalizing s f with
  | nil => exact h
  | cons next turns ih =>
    cases next with
    | append a =>
      have hnew : IsNew s a := fun hmem => (nodup_append.mp hids).2.2 _ hmem _ mem_cons_self rfl
      refine ih (suffix_append hs hnew horder.1) (holdsAll_append hs h a) ?_ horder.2
      rw [append_log, map_append, append_assoc]
      exact hids
    | poll => exact ih hs (holdsAll_poll hs h) hids horder
    | pull eventSeq =>
      refine ih hs ?_ hids horder
      split
      · exact holdsAll_since (min_le_right _ _)
      · exact h

end Follow

/-- However appends that expire events in order, polls and pulls follow one another, a device receives
every event from its last pull or refusal up to its cursor, once and in order. -/
theorem follower_holds_all (db : MetadataDb) (turns : List Turn) (hids : DistinctIds (appendsOf turns))
    (horder : AllExpireInOrder (start db) (appendsOf turns)) (vaultId : String) :
    HoldsAll vaultId (turns.foldl (turn vaultId) (start db, {})) :=
  holdsAll_turns (suffix_start db) ⟨le_rfl, Nat.zero_le _, rfl⟩ hids horder

def sampleTurns : List Turn :=
  [.append (sampleAppend "a" 5 5), .poll, .append (sampleAppend "b" 6 6), .poll, .pull 1,
    .append (sampleAppend "c" 7 7), .poll]

theorem follower_holds_all_two : HoldsAll "vault" (sampleTurns.foldl (turn "vault") (start {}, {})) :=
  follower_holds_all {} sampleTurns (by decide) ⟨by decide, by decide, by decide, trivial⟩ "vault"

end EventPolling
