import Obts.ClaimQueue
import Obts.LabelledRuns
import Obts.SlashPath

/-!
# The path mutation gate

The exclusion that the plugin puts on the adapter of a vault: every mutation claims the paths that it
names before it runs, and the adapter's own methods are wrapped until the gate retires. Calls go on one
continuation at a time; between two of them no scan is under way.
-/
namespace PathMutationGate

open ClaimQueue InsertionOrder List

/-- What the runtime does to a text. -/
structure Unicode where
  (nfc toLowerCase : String → String)

/-- The segments that are left, where a step up drops the last one. -/
def resolve (segments : List (List Char)) : List (List Char) → List (List Char)
  | [] => segments
  | segment :: rest =>
    if segment = [] ∨ segment = ['.'] then resolve segments rest
    else if segment = ['.', '.'] then resolve segments.dropLast rest
    else resolve (segments ++ [segment]) rest

def normalize (unicode : Unicode) (value : String) : String :=
  let slashes := String.ofList (value.toList.map fun ch => if ch = '\\' then '/' else ch)
  let segments := resolve [] ((unicode.nfc slashes).toList.splitOn '/')
  String.ofList (['/'].intercalate segments)

def startsWithDir (path dir : String) : Bool := (dir.toList ++ ['/']).isPrefixOf path.toList

def footprint (unicode : Unicode) (paths : List String) : List String :=
  (((paths.map (normalize unicode)).filter fun key => key ≠ ".obts" && !startsWithDir key ".obts").map
    unicode.toLowerCase).foldl add []

def conflicts (left right : List String) : Bool :=
  left.any fun a => right.any fun b =>
    a = "" || b = "" || a = b || startsWithDir a b || startsWithDir b a

/-- A path of one side is the root, or equals a path of the other or is above or below it. -/
lemma conflicts_iff {left right : List String} : conflicts left right = true ↔ ∃ a ∈ left, ∃ b ∈ right,
    (a = "" ∨ b = "") ∨ SlashPath.Path.mk a ≤ ⟨b⟩ ∨ SlashPath.Path.mk b ≤ ⟨a⟩ := by
  simp only [conflicts, any_eq_true, Bool.or_eq_true, decide_eq_true_eq, startsWithDir,
    isPrefixOf_iff_prefix, SlashPath.Path.le_iff, SlashPath.Path.withSlash, SlashPath.Path.mk.injEq]
  refine exists_congr fun a => and_congr_right fun _ => exists_congr fun b => and_congr_right fun _ => ?_
  rw [eq_comm (a := b)]
  tauto

lemma conflicts_comm (left right : List String) : conflicts left right = conflicts right left := by
  have hone : ∀ {l r : List String}, conflicts l r = true → conflicts r l = true := by
    intro l r h
    obtain ⟨a, ha, b, hb, hroot | hnested⟩ := conflicts_iff.mp h
    · exact conflicts_iff.mpr ⟨b, hb, a, ha, .inl hroot.symm⟩
    · exact conflicts_iff.mpr ⟨b, hb, a, ha, .inr hnested.symm⟩
  exact Bool.eq_iff_iff.mpr ⟨hone, hone⟩

structure Claim where
  call : Nat
  keys : List String
  deriving DecidableEq

def Claim.conflicts (left right : Claim) : Bool := PathMutationGate.conflicts left.keys right.keys

inductive CallStage where
  /-- Waits for the adapter to be ready. -/
  | admitted
  /-- Waits for its claim. -/
  | queued (claim : Claim)
  /-- Its operation runs, under a claim where it has a footprint. -/
  | running (claim : Option Claim)

structure Call where
  id : Nat
  paths : List String
  stage : CallStage

/-- A wrapped method of the adapter. Other plugins may put their own wrapper in its place, or ours
back. -/
structure Capture where
  method : String
  (enabled installed : Bool)

structure Gate where
  ready : Bool := false
  queue : Queue Claim := {}
  /-- The calls under way. -/
  calls : List Call := []
  nextCall : Nat := 0
  admitted : Nat := 0
  owners : List Nat := []
  nextOwner : Nat := 0
  retiring : Bool := false
  captures : List Capture
  registered : Bool := true

inductive Label where
  /-- The adapter's promise settles. -/
  | settle
  | withExclusive (paths : List String)
  /-- A call through the adapter's own method. -/
  | mutate (method : String) (paths : List String)
  /-- A call goes on once the gate is ready; reading its paths may throw. -/
  | proceed (id : Nat) (throws : Bool)
  /-- The promise of a granted claim is resolved. -/
  | begin (id : Nat)
  /-- The operation ends, normally or not. -/
  | complete (id : Nat)
  | acquire
  | releaseOwner (owner : Nat)
  | replace (method : String) (installed : Bool)

def methods : List String :=
  ["write", "writeBinary", "append", "appendBinary", "process", "mkdir", "remove", "rmdir", "rename",
    "copy", "trashLocal", "trashSystem", "writeBinaryExclusive"]

namespace Gate

variable (gate : Gate)

def finishRetirement : Gate :=
  if gate.retiring && gate.owners.isEmpty && gate.admitted = 0 && gate.queue.active.isEmpty &&
      gate.queue.pending.isEmpty then
    { gate with
      captures := gate.captures.map fun capture => { capture with enabled := false, installed := false }
      registered := false }
  else gate

/-- `withExclusive` up to its first await. -/
def call (paths : List String) : Gate :=
  { gate with
    admitted := gate.admitted + 1
    calls := gate.calls ++ [⟨gate.nextCall, paths, .admitted⟩]
    nextCall := gate.nextCall + 1 }

def setStage (id : Nat) (stage : CallStage) : Gate :=
  { gate with calls := gate.calls.map fun call => if call.id = id then { call with stage } else call }

def find (gate : Gate) (id : Nat) : Option Call := gate.calls.find? fun call => call.id = id

/-- The `finally` of `withExclusive`. -/
def finish (id : Nat) (claim : Option Claim) : Gate :=
  let released := match claim with
    | some claim => { gate with queue := release Claim.conflicts claim gate.queue }.finishRetirement
    | none => gate
  { released with
    calls := released.calls.filter fun call => call.id ≠ id
    admitted := released.admitted - 1 }.finishRetirement

/-- What a wrapper passes on as the paths of a mutation. -/
def mutatedPaths (method : String) (arguments : List String) : List String :=
  if method = "rename" ∨ method = "copy" then arguments.take 2 else arguments.take 1

def step (unicode : Unicode) (gate : Gate) : Label → Option Gate
  | .settle => some { gate with ready := true }
  | .withExclusive paths => some (gate.call paths)
  | .mutate method arguments =>
    match gate.captures.find? fun capture => capture.method = method with
    | none => none
    | some capture =>
      if capture.enabled then some (gate.call (mutatedPaths method arguments)) else some gate
  | .proceed id throws =>
    if gate.ready then
      match gate.find id with
      | some ⟨_, paths, .admitted⟩ =>
        if throws then some (gate.finish id none)
        else
          let keys := footprint unicode paths
          if keys = [] then some (gate.setStage id (.running none))
          else
            let claim : Claim := ⟨id, keys⟩
            some { gate.setStage id (.queued claim) with
              queue := enqueue Claim.conflicts claim gate.queue }
      | _ => none
    else none
  | .begin id =>
    match gate.find id with
    | some ⟨_, _, .queued claim⟩ =>
      if claim ∈ gate.queue.active then some (gate.setStage id (.running (some claim))) else none
    | _ => none
  | .complete id =>
    match gate.find id with
    | some ⟨_, _, .running claim⟩ => some (gate.finish id claim)
    | _ => none
  | .acquire =>
    if gate.registered then
      some { gate with
        owners := gate.owners ++ [gate.nextOwner]
        nextOwner := gate.nextOwner + 1
        retiring := false }
    else none
  | .releaseOwner owner =>
    if owner ∈ gate.owners then
      let owners := gate.owners.filter (· ≠ owner)
      some { gate with owners, retiring := owners.isEmpty }.finishRetirement
    else some gate
  | .replace method installed =>
    some { gate with captures := gate.captures.map fun capture =>
      if capture.method = method then { capture with installed } else capture }

def run (unicode : Unicode) (gate : Gate) : List Label → Option Gate
  | [] => some gate
  | label :: labels => (gate.step unicode label).bind fun gate => gate.run unicode labels

/-- `createGate` for an adapter that has the methods which are functions. -/
def create (isFunction : String → Bool) : Gate where
  captures := (methods.filter isFunction).map fun method => ⟨method, true, true⟩

structure Sound (gate : Gate) : Prop where
  fair : Fair Claim.conflicts gate.queue
  counted : gate.admitted = gate.calls.length
  nodup : (gate.calls.map Call.id).Nodup
  fresh : ∀ call ∈ gate.calls, call.id < gate.nextCall
  claimed : ∀ claim ∈ gate.queue.queued, claim.call < gate.nextCall ∧
    ∀ call ∈ gate.calls, call.id = claim.call → call.stage ≠ .admitted

/-- No owner, no call under way and no claim. -/
structure Idle (gate : Gate) : Prop where
  owners : gate.owners = []
  admitted : gate.admitted = 0
  active : gate.queue.active = []
  pending : gate.queue.pending = []

variable {unicode : Unicode} {gate gate' : Gate} {label : Label}

/-- A retirement changes the wrappers and the registry only, and happens to an idle gate only. -/
lemma finishRetirement_cases (gate : Gate) : gate.finishRetirement = gate ∨ Idle gate ∧ ∃ captures,
      gate.finishRetirement = { gate with captures, registered := false } := by
  unfold finishRetirement
  split
  · rename_i hidle
    simp only [Bool.and_eq_true, List.isEmpty_iff, decide_eq_true_eq] at hidle
    obtain ⟨⟨⟨⟨-, hown⟩, hadm⟩, hact⟩, hpend⟩ := hidle
    exact .inr ⟨⟨hown, hadm, hact, hpend⟩, _, rfl⟩
  · exact .inl rfl

lemma Sound.finishRetirement (h : Sound gate) : Sound gate.finishRetirement := by
  rcases finishRetirement_cases gate with heq | ⟨-, captures, heq⟩
  · rw [heq]
    exact h
  · rw [heq]
    exact { h with }

lemma Sound.call (h : Sound gate) (paths : List String) : Sound (gate.call paths) := by
  constructor
  · exact h.fair
  · simp [Gate.call, h.counted]
  · refine nodup_map_concat h.nodup fun hid => ?_
    obtain ⟨call, hcall, heq⟩ := mem_map.mp hid
    exact (h.fresh call hcall).ne heq
  · intro call hcall
    simp only [Gate.call, mem_append, mem_singleton] at hcall ⊢
    rcases hcall with hold | rfl
    · exact Nat.lt_succ_of_lt (h.fresh call hold)
    · exact Nat.lt_succ_self _
  · intro claim hclaim
    obtain ⟨hlt, hstag⟩ := h.claimed claim hclaim
    refine ⟨Nat.lt_succ_of_lt hlt, ?_⟩
    intro call hcall hid
    simp only [Gate.call, mem_append, mem_singleton] at hcall
    rcases hcall with hold | rfl
    · exact hstag call hold hid
    · simp only at hid
      omega

lemma mem_setStage {id : Nat} {stage : CallStage} {call : Call}
    (hcall : call ∈ (gate.setStage id stage).calls) : ∃ old ∈ gate.calls, old.id = call.id ∧
      (call = old ∧ call.id ≠ id ∨ call.id = id ∧ call.stage = stage) := by
  obtain ⟨old, hold, rfl⟩ := mem_map.mp hcall
  refine ⟨old, hold, ?_⟩
  split
  · rename_i hid
    exact ⟨rfl, .inr ⟨hid, rfl⟩⟩
  · rename_i hid
    exact ⟨rfl, .inl ⟨rfl, hid⟩⟩

lemma map_id_setStage (gate : Gate) (id : Nat) (stage : CallStage) :
    (gate.setStage id stage).calls.map Call.id = gate.calls.map Call.id := by
  simp only [setStage, map_map]
  refine map_congr_left ?_
  intro call _
  simp only [Function.comp_apply]
  split
  · rfl
  · rfl

/-- A call goes on to a later stage. -/
lemma Sound.setStage (h : Sound gate) (id : Nat) (stage : CallStage) (hstage : stage ≠ .admitted) :
    Sound (gate.setStage id stage) := by
  constructor
  · exact h.fair
  · exact h.counted.trans (by simp [Gate.setStage])
  · rw [map_id_setStage]
    exact h.nodup
  · intro call hcall
    obtain ⟨old, hold, hid, -⟩ := mem_setStage hcall
    exact hid ▸ h.fresh old hold
  · intro claim hclaim
    refine ⟨(h.claimed claim hclaim).1, ?_⟩
    intro call hcall hid
    obtain ⟨old, hold, hsame, ⟨rfl, -⟩ | ⟨-, heq⟩⟩ := mem_setStage hcall
    · exact (h.claimed claim hclaim).2 call hold hid
    · exact heq ▸ hstage

lemma find_eq_some {id : Nat} {call : Call} (hfind : gate.find id = some call) : call ∈ gate.calls ∧ call.id = id :=
  ⟨mem_of_find?_eq_some hfind, by simpa using List.find?_some hfind⟩

lemma length_filter_id {calls : List Call} (hnodup : (calls.map Call.id).Nodup) {id : Nat}
    (hid : id ∈ calls.map Call.id) : (calls.filter fun call => call.id ≠ id).length + 1 = calls.length := by
  induction calls with
  | nil => cases hid
  | cons call calls ih =>
    rw [map_cons, nodup_cons] at hnodup
    by_cases heq : call.id = id
    · have hall : calls.filter (fun call => call.id ≠ id) = calls := by
        refine filter_eq_self.mpr ?_
        intro other hother
        refine decide_eq_true fun hsame => hnodup.1 ?_
        exact mem_map.mpr ⟨other, hother, hsame.trans heq.symm⟩
      rw [filter_cons_of_neg (by simpa using heq), hall, length_cons]
    · rw [map_cons, mem_cons] at hid
      have hrest : id ∈ calls.map Call.id := hid.resolve_left fun hsame => heq hsame.symm
      rw [filter_cons_of_pos (by simpa using heq), length_cons, ih hnodup.2 hrest,
        length_cons]

/-- The last part of a call, once its claim is released. -/
lemma Sound.leave (h : Sound gate) {id : Nat} (hid : id ∈ gate.calls.map Call.id) : Sound { gate with
      calls := gate.calls.filter fun call => call.id ≠ id
      admitted := gate.admitted - 1 } := by
  constructor
  · exact h.fair
  · have hlen := length_filter_id h.nodup hid
    have hcoun := h.counted
    simp only
    omega
  · exact h.nodup.sublist (filter_sublist.map Call.id)
  · exact fun call hcall => h.fresh call (mem_filter.mp hcall).1
  · intro claim hclaim
    obtain ⟨hlt, hstag⟩ := h.claimed claim hclaim
    exact ⟨hlt, fun call hcall => hstag call (mem_filter.mp hcall).1⟩

lemma Sound.releaseClaim (h : Sound gate) (claim : Claim) :
    Sound { gate with queue := release Claim.conflicts claim gate.queue } := by
  refine ⟨h.fair.release claim, h.counted, h.nodup, h.fresh, ?_⟩
  intro other hother
  rw [release_queued] at hother
  exact h.claimed other hother

lemma finishRetirement_calls (gate : Gate) : gate.finishRetirement.calls = gate.calls := by
  rcases finishRetirement_cases gate with heq | ⟨-, captures, heq⟩
  · rw [heq]
  · rw [heq]

lemma Sound.finish (h : Sound gate) {id : Nat} (claim : Option Claim)
    (hid : id ∈ gate.calls.map Call.id) : Sound (gate.finish id claim) := by
  refine Sound.finishRetirement ?_
  cases claim with
  | none => exact h.leave hid
  | some claim =>
    refine Sound.leave (h.releaseClaim claim).finishRetirement ?_
    rw [finishRetirement_calls]
    exact hid

lemma Sound.enqueue (h : Sound gate) {call : Call} (hcall : call ∈ gate.calls)
    (hstage : call.stage = .admitted) (keys : List String) :
    Sound { gate.setStage call.id (.queued ⟨call.id, keys⟩) with
      queue := enqueue Claim.conflicts ⟨call.id, keys⟩ gate.queue } := by
  have hmoved := h.setStage call.id (.queued ⟨call.id, keys⟩) CallStage.noConfusion
  have hnew : ∀ claim ∈ gate.queue.queued, claim.call ≠ call.id := fun claim hclaim hid =>
    (h.claimed claim hclaim).2 call hcall hid.symm hstage
  refine { hmoved with fair := h.fair.enqueue fun hmem => hnew _ hmem rfl, claimed := ?_ }
  intro claim hclaim
  simp only [enqueue_queued, mem_append, mem_singleton] at hclaim
  rcases hclaim with hold | rfl
  · exact hmoved.claimed claim hold
  refine ⟨h.fresh call hcall, ?_⟩
  intro other hother hid
  obtain ⟨old, hold, hsame, ⟨-, hne⟩ | ⟨-, heq⟩⟩ := mem_setStage hother
  · exact absurd hid hne
  · rw [heq]
    exact CallStage.noConfusion

lemma Sound.step (h : Sound gate) (hstep : gate.step unicode label = some gate') : Sound gate' := by
  cases label with
  | settle | replace =>
    cases hstep
    exact { h with }
  | withExclusive paths =>
    cases hstep
    exact h.call paths
  | mutate method arguments =>
    simp only [Gate.step] at hstep
    split at hstep
    · cases hstep
    split at hstep
    · cases hstep
      exact h.call _
    · cases hstep
      exact h
  | proceed id throws =>
    simp only [Gate.step] at hstep
    obtain ⟨-, hstep⟩ := Option.ite_none_right_eq_some.mp hstep
    split at hstep
    · rename_i callId paths hfind
      obtain ⟨hcall, rfl⟩ := find_eq_some hfind
      have hid := mem_map_of_mem (f := Call.id) hcall
      split at hstep
      · cases hstep
        exact h.finish none hid
      split at hstep
      · cases hstep
        exact h.setStage _ _ CallStage.noConfusion
      · cases hstep
        exact h.enqueue hcall rfl _
    · cases hstep
  | begin id =>
    simp only [Gate.step] at hstep
    split at hstep
    · split at hstep
      · cases hstep
        exact h.setStage _ _ CallStage.noConfusion
      · cases hstep
    · cases hstep
  | complete id =>
    simp only [Gate.step] at hstep
    split at hstep
    · rename_i callId paths claim hfind
      obtain ⟨hcall, rfl⟩ := find_eq_some hfind
      cases hstep
      exact h.finish claim (mem_map_of_mem (f := Call.id) hcall)
    · cases hstep
  | acquire =>
    obtain ⟨-, ⟨⟩⟩ := Option.ite_none_right_eq_some.mp hstep
    exact { h with }
  | releaseOwner owner =>
    simp only [Gate.step] at hstep
    split at hstep
    · cases hstep
      refine Sound.finishRetirement ?_
      exact { h with }
    · cases hstep
      exact h

lemma Sound.run {labels : List Label} (h : Sound gate)
    (hrun : gate.run unicode labels = some gate') : Sound gate' :=
  LabelledRuns.inv_run hrun (fun _ => rfl) (fun _ _ _ => rfl) (·.step ·) h

lemma sound_create (isFunction : String → Bool) : Sound (create isFunction) := by
  refine ⟨fair_empty, rfl, nodup_nil, ?_, ?_⟩
  · intro call hcall
    cases hcall
  · intro claim hclaim
    cases hclaim

/-- What a step leaves of the wrappers and the registry entry, unless the gate is idle after it. -/
def Keeps (gate gate' : Gate) : Prop :=
  (gate'.captures = gate.captures ∧ gate'.registered = gate.registered) ∨ Idle gate'

lemma keeps_finishRetirement (hcapt : gate'.captures = gate.captures)
    (hreg : gate'.registered = gate.registered) : Keeps gate gate'.finishRetirement := by
  rcases finishRetirement_cases gate' with heq | ⟨hidle, captures, heq⟩
  · rw [heq]
    exact .inl ⟨hcapt, hreg⟩
  · rw [heq]
    exact .inr { hidle with }

/-- A call that ends may retire the gate once only, when it is counted no longer. -/
lemma Sound.keeps_finish (h : Sound gate) {id : Nat} (claim : Option Claim)
    (hid : id ∈ gate.calls.map Call.id) : Keeps gate (gate.finish id claim) := by
  cases claim with
  | none => exact keeps_finishRetirement rfl rfl
  | some claim =>
    have hbusy : gate.admitted ≠ 0 := by
      have hlen := length_filter_id h.nodup hid
      have hcoun := h.counted
      omega
    rcases finishRetirement_cases { gate with queue := release Claim.conflicts claim gate.queue }
      with heq | ⟨hidle, -⟩
    · refine keeps_finishRetirement ?_ ?_
      · simp [heq]
      · simp [heq]
    · exact absurd hidle.admitted hbusy

lemma Sound.keeps_step (h : Sound gate) (hlabel : ∀ method installed, label ≠ .replace method installed)
    (hstep : gate.step unicode label = some gate') : Keeps gate gate' := by
  have same : gate'.captures = gate.captures → gate'.registered = gate.registered →
      Keeps gate gate' := fun hcapt hreg => .inl ⟨hcapt, hreg⟩
  cases label with
  | settle | withExclusive =>
    cases hstep
    exact same rfl rfl
  | mutate method arguments =>
    simp only [Gate.step] at hstep
    split at hstep
    · cases hstep
    split at hstep
    · cases hstep
      exact same rfl rfl
    · cases hstep
      exact same rfl rfl
  | proceed id throws =>
    simp only [Gate.step] at hstep
    obtain ⟨-, hstep⟩ := Option.ite_none_right_eq_some.mp hstep
    split at hstep
    · rename_i callId paths hfind
      obtain ⟨hcall, rfl⟩ := find_eq_some hfind
      split at hstep
      · cases hstep
        exact h.keeps_finish none (mem_map_of_mem (f := Call.id) hcall)
      split at hstep
      · cases hstep
        exact same rfl rfl
      · cases hstep
        exact same rfl rfl
    · cases hstep
  | begin id =>
    simp only [Gate.step] at hstep
    split at hstep
    · split at hstep
      · cases hstep
        exact same rfl rfl
      · cases hstep
    · cases hstep
  | complete id =>
    simp only [Gate.step] at hstep
    split at hstep
    · rename_i callId paths claim hfind
      obtain ⟨hcall, rfl⟩ := find_eq_some hfind
      cases hstep
      exact h.keeps_finish claim (mem_map_of_mem (f := Call.id) hcall)
    · cases hstep
  | acquire =>
    obtain ⟨-, ⟨⟩⟩ := Option.ite_none_right_eq_some.mp hstep
    exact same rfl rfl
  | releaseOwner owner =>
    simp only [Gate.step] at hstep
    split at hstep
    · cases hstep
      exact keeps_finishRetirement rfl rfl
    · cases hstep
      exact same rfl rfl
  | replace method installed => exact absurd rfl (hlabel method installed)

/-- In every run of a gate: the footprints of active claims do not conflict; every pending claim
conflicts with an active claim or with an earlier pending one; conflicting claims are granted in the
order in which they were queued; and a step takes the wrappers or the registry entry away only where
it leaves no owner, no admitted call, no active and no pending claim. -/
theorem gate_excludes {isFunction : String → Bool} {labels : List Label}
    (hrun : (create isFunction).run unicode labels = some gate) :
    (gate.queue.active.Pairwise fun left right => conflicts left.keys right.keys = false) ∧
    (∀ front claim back, gate.queue.pending = front ++ claim :: back →
      (∃ other ∈ gate.queue.active, conflicts claim.keys other.keys = true) ∨
        ∃ other ∈ front, conflicts claim.keys other.keys = true) ∧
    (∀ left right, [left, right].Sublist gate.queue.queued → conflicts left.keys right.keys = true →
      right ∈ gate.queue.granted → [left, right].Sublist gate.queue.granted) ∧
    gate.admitted = gate.calls.length ∧ ∀ label gate', gate.step unicode label = some gate' →
      (∀ method installed, label ≠ .replace method installed) →
      gate'.captures ≠ gate.captures ∨ gate'.registered ≠ gate.registered → Idle gate' := by
  have hsound : Sound gate := (sound_create isFunction).run hrun
  refine ⟨?_, hsound.fair.waits, ?_, hsound.counted, ?_⟩
  · refine hsound.fair.apart.imp ?_
    intro left right hfree
    rw [conflicts_comm]
    exact hfree
  · intro left right hque hconf hgrt
    rw [conflicts_comm] at hconf
    exact hsound.fair.recorded.order left right hque hconf hgrt
  · intro label gate' hstep hlabel hchg
    rcases hsound.keeps_step hlabel hstep with ⟨hcapt, hreg⟩ | hidle
    · rcases hchg with hchg | hchg
      · exact absurd hcapt hchg
      · exact absurd hreg hchg
    · exact hidle

/-- Two calls whose paths lie in each other: the second waits for the first. -/
def nested : List Label :=
  [.acquire, .settle, .withExclusive ["notes"], .withExclusive ["notes/today.md"], .proceed 0 false,
    .proceed 1 false, .begin 0]

lemma nested_run : ∃ gate, (create fun _ => true).run ⟨id, id⟩ nested = some gate ∧
    gate.queue.active = [⟨0, ["notes"]⟩] ∧ gate.queue.pending = [⟨1, ["notes/today.md"]⟩] :=
  ⟨_, rfl, rfl, rfl⟩

theorem gate_excludes_nested : ∃ gate, (create fun _ => true).run ⟨id, id⟩ nested = some gate ∧
      gate.queue.active.Pairwise fun left right => conflicts left.keys right.keys = false := by
  obtain ⟨gate, hrun, -, -⟩ := nested_run
  exact ⟨gate, hrun, (gate_excludes hrun).1⟩

end Gate

end PathMutationGate
