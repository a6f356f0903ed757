import Mathlib.Logic.Function.Basic

/-!
# Leases on a ref

The client updates a ref under a lease: a file that is created exclusively, names its owner, and may be
removed by anyone once it is old. The owner checks twice that the lease is still its own, compares the
ref with the value that it expects, and renames a staged file over it. Checks and removals are separate
steps, so the exclusion rests on two conditions: a ref is renamed while the lease is there or is not yet
old, and a lease is removed by none but who has read that lease.
-/
namespace RefLeases

open Option

def refLockStaleMs : Nat := 30 * 1000

structure Lease where
  (nonce created : Nat)

/-- Where a call of `updateRef` stands. The nonce of its lease is the number of the call. -/
inductive Phase where
  /-- About to create the lease; it does so again after a recovery. -/
  | creating (recoveredLease : Bool)
  /-- About to look at the age of the lease that is there. -/
  | inspecting
  /-- A lease was found to be old; about to read the file. -/
  | reading (aged : Nat)
  /-- About to remove the lease file, having read a nonce in it. -/
  | recovering (aged nonce : Nat)
  /-- About to remove the staged file of that nonce. -/
  | cleaning (nonce : Nat)
  | leased (created : Nat)
  | staged (created : Nat)
  /-- The lease was its own at the first check. -/
  | owned (created : Nat)
  /-- The ref had the value that is expected. -/
  | compared (created : Nat)
  /-- The lease was its own at the last check, at this time. -/
  | confirmed (created checked : Nat)
  | finishing (succeeded : Bool)
  /-- About to remove its lease, having found it to be its own. -/
  | releasing (succeeded : Bool)
  | done (succeeded : Bool)
  deriving DecidableEq

structure Writer where
  target : String
  expected : Option String
  force : Bool
  phase : Phase
  deriving DecidableEq

structure State where
  ref : Option String
  lease : Option Lease
  stages : List Nat
  now : Nat
  writers : Nat → Option Writer

def startState (ref : Option String) (now : Nat) : State where
  ref := ref
  lease := none
  stages := []
  now := now
  writers := fun _ => none

inductive Event where
  | wait (ms : Nat)
  | begin (w : Nat) (target : String) (expected : Option String) (force : Bool)
  /-- A call takes its next step. -/
  | advance (w : Nat)
  /-- A call fails where it stands. -/
  | fail (w : Nat)

variable (s : State)

def State.setPhase (w : Nat) (a : Writer) (phase : Phase) : State :=
  { s with writers := Function.update s.writers w (some { a with phase := phase }) }

/-- `assertRefLeaseOwner`. -/
def State.owns (w : Nat) : Bool := s.lease.map (·.nonce) = some w

/-- The next step of `updateRef`, with `recoverOwnedRefLease` and `releaseRefLease`. -/
def advance (w : Nat) (a : Writer) : State :=
  match a.phase with
  | .creating recoveredLease =>
    match s.lease with
    | none => { s.setPhase w a (.leased s.now) with lease := some { nonce := w, created := s.now } }
    | some _ => s.setPhase w a (if recoveredLease then .done false else .inspecting)
  | .inspecting =>
    match s.lease with
    | none => s.setPhase w a (.done false)
    | some lease =>
      s.setPhase w a (if s.now - lease.created < refLockStaleMs then .done false
        else .reading lease.nonce)
  | .reading aged =>
    match s.lease with
    | none => s.setPhase w a (.done false)
    | some lease => s.setPhase w a (.recovering aged lease.nonce)
  | .recovering _ nonce => { s.setPhase w a (.cleaning nonce) with lease := none }
  | .cleaning nonce =>
    { s.setPhase w a (.creating true) with stages := s.stages.filter (· ≠ nonce) }
  | .leased created => { s.setPhase w a (.staged created) with stages := w :: s.stages }
  | .staged created => s.setPhase w a (if s.owns w then .owned created else .finishing false)
  | .owned created =>
    s.setPhase w a (if a.force || a.expected.isNone || s.ref = a.expected then .compared created
      else .finishing false)
  | .compared created =>
    s.setPhase w a (if s.owns w then .confirmed created s.now else .finishing false)
  | .confirmed _ _ =>
    if s.stages.contains w then
      { s.setPhase w a (.finishing true) with
        ref := some a.target
        stages := s.stages.filter (· ≠ w) }
    else s.setPhase w a (.finishing false)
  | .finishing succeeded =>
    { s.setPhase w a (if s.owns w then .releasing succeeded else .done succeeded) with
      stages := s.stages.filter (· ≠ w) }
  | .releasing succeeded => { s.setPhase w a (.done succeeded) with lease := none }
  | .done _ => s

/-- What an error of the file system leads to. -/
def Phase.failed : Phase → Phase
  | .creating _ | .inspecting | .reading _ | .recovering _ _ | .cleaning _ => .done false
  | .leased _ | .staged _ | .owned _ | .compared _ | .confirmed _ _ => .finishing false
  | .finishing succeeded | .releasing succeeded | .done succeeded => .done succeeded

def step : Event → State
  | .wait ms => { s with now := s.now + ms }
  | .begin w target expected force =>
    match s.writers w with
    | some _ => s
    | none => s.setPhase w { target, expected, force, phase := .creating false } (.creating false)
  | .advance w =>
    match s.writers w with
    | none => s
    | some a => advance s w a
  | .fail w =>
    match s.writers w with
    | none => s
    | some a => s.setPhase w a a.phase.failed

def run (events : List Event) : State := events.foldl step s

/-- The condition on the step that a call takes in this phase. -/
def Phase.timely (w : Nat) : Phase → Prop
  | .confirmed created _ => s.owns w ∨ s.now - created < refLockStaleMs
  | .recovering aged _ => ∀ lease ∈ s.lease, lease.nonce = aged
  | .releasing _ => ∀ lease ∈ s.lease, lease.nonce = w
  | _ => True

/-- A ref is renamed while the lease is there or is not yet old, and a lease is removed by a recovery that
has found this lease to be old, or by its owner. -/
def Timely : Event → Prop
  | .advance w => ∀ a ∈ s.writers w, a.phase.timely s w
  | _ => True

instance (s : State) (w : Nat) : ∀ p : Phase, Decidable (p.timely s w)
  | .confirmed created _ => inferInstanceAs (Decidable (s.owns w ∨ s.now - created < refLockStaleMs))
  | .recovering aged _ => inferInstanceAs (Decidable (∀ lease ∈ s.lease, lease.nonce = aged))
  | .releasing _ => inferInstanceAs (Decidable (∀ lease ∈ s.lease, lease.nonce = w))
  | .creating _ | .inspecting | .reading _ | .cleaning _ | .leased _ | .staged _ | .owned _
  | .compared _ | .finishing _ | .done _ => inferInstanceAs (Decidable True)

instance (s : State) (e : Event) : Decidable (Timely s e) :=
  match e with
  | .advance w => inferInstanceAs (Decidable (∀ a ∈ s.writers w, a.phase.timely s w))
  | .wait _ | .begin _ _ _ _ | .fail _ => inferInstanceAs (Decidable True)

/-- A call at the rename has made its last check a short time ago. -/
def Phase.prompt (now : Nat) : Phase → Bool
  | .confirmed _ checked => now - checked < refLockStaleMs
  | _ => true

/-- A ref is renamed soon after the last check of the lease. -/
def Prompt (s : State) : Event → Prop
  | .advance w => ∀ a ∈ s.writers w, a.phase.prompt s.now = true
  | _ => True

instance (s : State) (e : Event) : Decidable (Prompt s e) :=
  match e with
  | .advance w => inferInstanceAs (Decidable (∀ a ∈ s.writers w, a.phase.prompt s.now = true))
  | .wait _ | .begin _ _ _ _ | .fail _ => inferInstanceAs (Decidable True)

/-- A condition on each event of a run, in the state that it meets. -/
def Along (condition : State → Event → Prop) (s : State) : List Event → Prop
  | [] => True
  | e :: events => condition s e ∧ Along condition (step s e) events

instance decidableAlong {condition : State → Event → Prop} [∀ s e, Decidable (condition s e)] :
    ∀ s events, Decidable (Along condition s events)
  | _, [] => inferInstanceAs (Decidable True)
  | s, e :: events =>
    have : Decidable (Along condition (step s e) events) := decidableAlong (step s e) events
    inferInstanceAs (Decidable (_ ∧ _))

def Phase.succeeded : Phase → Bool
  | .finishing succeeded | .releasing succeeded | .done succeeded => succeeded
  | _ => false

/-- From the creation of its lease to the rename, when the lease was created. -/
def Phase.active : Phase → Option Nat
  | .leased created | .staged created | .owned created | .compared created => some created
  | .confirmed created _ => some created
  | _ => none

/-- The call has created its lease, or will not create one. -/
def Phase.started : Phase → Bool
  | .creating _ | .inspecting | .reading _ | .recovering _ _ | .cleaning _ => false
  | _ => true

/-- The lease that a recovery has found to be old. -/
def Phase.aging : Phase → Option Nat
  | .reading aged | .recovering aged _ => some aged
  | _ => none

/-- The ref was compared under this lease. -/
def Phase.comparedAt : Phase → Option Nat
  | .compared created | .confirmed created _ => some created
  | _ => none

/-- A call whose lease is old: it renames no more. -/
def Aged (s : State) (n : Nat) : Prop :=
  ∃ b, s.writers n = some b ∧ b.phase.started = true ∧
    ∀ created, b.phase.active = some created → refLockStaleMs ≤ s.now - created

/-- A call that compares the ref with this value. -/
def Writer.Expects (a : Writer) (v : String) : Prop := a.force = false ∧ a.expected = some v

/-- While its lease is not old a call has it; what the call has compared the ref with is the ref while the
lease is there; once it has succeeded the ref is another one. -/
structure Sound (v : String) (s : State) (w : Nat) (a : Writer) : Prop where
  held : ∀ created, a.phase.active = some created → s.now - created < refLockStaleMs →
    s.lease = some { nonce := w, created := created }
  aging : ∀ n, a.phase.aging = some n → Aged s n
  compared : ∀ created, a.Expects v → a.phase.comparedAt = some created →
    s.lease = some { nonce := w, created := created } → s.ref = some v
  target : a.target ≠ v
  moved : a.phase.succeeded → s.ref ≠ some v

structure Exclusive (v : String) (s : State) : Prop where
  lease : ∀ l, s.lease = some l → ∃ b, s.writers l.nonce = some b ∧ b.phase.started = true ∧
    ∀ created, b.phase.active = some created → created = l.created
  each : ∀ w a, s.writers w = some a → Sound v s w a
  unique : ∀ w w' a a', s.writers w = some a → s.writers w' = some a' → a.Expects v → a'.Expects v →
    a.phase.succeeded → a'.phase.succeeded → w = w'

variable {v : String} {events : List Event}

section Steps
variable {v : String} {s : State} {w created : Nat} {a : Writer} {p : Phase}

lemma writers_setPhase (s : State) (w : Nat) (a : Writer) (p : Phase) (m : Nat) :
    (s.setPhase w a p).writers m = if m = w then some { a with phase := p } else s.writers m := by
  by_cases hm : m = w
  · subst hm
    rw [State.setPhase, if_pos rfl]
    exact Function.update_self ..
  · rw [State.setPhase, if_neg hm]
    exact Function.update_of_ne hm ..

/-- A writer after a change of one phase. -/
lemma writers_cases {m : Nat} {b : Writer} (h : (s.setPhase w a p).writers m = some b) :
    (m = w ∧ b = { a with phase := p }) ∨ (m ≠ w ∧ s.writers m = some b) := by
  rw [writers_setPhase] at h
  by_cases hm : m = w
  · rw [if_pos hm] at h
    exact Or.inl ⟨hm, (some.inj h).symm⟩
  · rw [if_neg hm] at h
    exact Or.inr ⟨hm, h⟩

/-- One call takes a step: what is to be shown of it, and of the others. -/
lemma Exclusive.replace {s' : State} (h : Exclusive v s) (hwriters : s'.writers = (s.setPhase w a p).writers)
    (hlease : ∀ l, s'.lease = some l → ∃ b, s'.writers l.nonce = some b ∧ b.phase.started = true ∧
      ∀ created, b.phase.active = some created → created = l.created) (hself : Sound v s' w { a with phase := p })
    (hothers : ∀ m b, m ≠ w → s.writers m = some b → Sound v s m b → Sound v s' m b)
    (hfirst : a.Expects v → p.succeeded → ∀ m b, m ≠ w → s.writers m = some b → b.Expects v →
      ¬ b.phase.succeeded) : Exclusive v s' where
  lease := hlease
  each m b hm := by
    rw [hwriters] at hm
    rcases writers_cases hm with ⟨rfl, rfl⟩ | ⟨hne, hm⟩
    · exact hself
    · exact hothers m b hne hm (h.each m b hm)
  unique m m' b b' hm hm' hexp hexp' hsucc hsucc' := by
    rw [hwriters] at hm hm'
    rcases writers_cases hm with ⟨rfl, rfl⟩ | ⟨hne, hold⟩
    · rcases writers_cases hm' with ⟨rfl, rfl⟩ | ⟨hne', hold'⟩
      · rfl
      · exact absurd hsucc' (hfirst hexp hsucc m' b' hne' hold' hexp')
    rcases writers_cases hm' with ⟨rfl, rfl⟩ | ⟨-, hold'⟩
    · exact absurd hsucc (hfirst hexp' hsucc' m b hne hold hexp)
    · exact h.unique m m' b b' hold hold' hexp hexp' hsucc hsucc'

/-- A change of phase that starts no lease and ends none. -/
structure Follows (s : State) (v : String) (w : Nat) (a : Writer) (p : Phase) : Prop where
  active : ∀ created, p.active = some created → a.phase.active = some created
  started : a.phase.started = true → p.started = true
  aging : ∀ n, p.aging = some n → Aged s n
  compared : ∀ created, a.Expects v → p.comparedAt = some created →
    s.lease = some { nonce := w, created := created } → s.ref = some v
  succeeded : p.succeeded = true → a.phase.succeeded = true

/-- An aged call stays aged when phases change so. -/
lemma Aged.setPhase {n : Nat} (h : Aged s n) (ha : s.writers w = some a)
    (hact : ∀ created, p.active = some created → a.phase.active = some created)
    (hstrt : a.phase.started → p.started) : Aged (s.setPhase w a p) n := by
  obtain ⟨b, hb, hbst, hold⟩ := h
  by_cases hn : n = w
  · subst hn
    obtain rfl := Option.some.inj (hb.symm.trans ha)
    refine ⟨{ b with phase := p }, ?_, hstrt hbst, fun created hc => ?_⟩
    · rw [writers_setPhase, if_pos rfl]
    · exact hold created (hact created hc)
  · exact ⟨b, by rw [writers_setPhase, if_neg hn]; exact hb, hbst, hold⟩

lemma Exclusive.setPhase (h : Exclusive v s) (ha : s.writers w = some a)
    (hp : Follows s v w a p) : Exclusive v (s.setPhase w a p) := by
  have haged : ∀ n, Aged s n → Aged (s.setPhase w a p) n := fun n hn => hn.setPhase ha hp.active hp.started
  have hsound := h.each w a ha
  refine h.replace rfl (fun l hl => ?_) ⟨?_, ?_, hp.compared, hsound.target, ?_⟩ (fun m b _ _ hb => ?_)
    fun hexp hsucc m b hne hm hexp' hsucc' => ?_
  · obtain ⟨b, hb, hbst, hcr⟩ := h.lease l hl
    by_cases hw : l.nonce = w
    · rw [hw] at hb
      obtain rfl := Option.some.inj (hb.symm.trans ha)
      refine ⟨{ b with phase := p }, ?_, hp.started hbst, fun created hc => ?_⟩
      · rw [writers_setPhase, if_pos hw]
      · exact hcr created (hp.active created hc)
    · exact ⟨b, by rw [writers_setPhase, if_neg hw]; exact hb, hbst, hcr⟩
  · exact fun created hc => hsound.held created (hp.active created hc)
  · exact fun n hn => haged n (hp.aging n hn)
  · exact fun hsucc => hsound.moved (hp.succeeded hsucc)
  · exact { hb with aging := fun n hn => haged n (hb.aging n hn) }
  · exact hne (h.unique m w b a hm ha hexp' hexp hsucc' (hp.succeeded hsucc))

/-- The staged files do not matter. -/
lemma Exclusive.withStages (h : Exclusive v s) (stages : List Nat) : Exclusive v { s with stages := stages } :=
  { h with each := fun w a ha => { h.each w a ha with } }

/-- A phase without a lease follows. -/
lemma follows_of_idle (hact : p.active = none) (haging : p.aging = none)
    (hcomp : p.comparedAt = none) (hstrt : a.phase.started → p.started)
    (hsucc : p.succeeded → a.phase.succeeded) : Follows s v w a p where
  active _ hc := by rw [hact] at hc; cases hc
  started := hstrt
  aging _ hn := by rw [haging] at hn; cases hn
  compared _ _ hc := by rw [hcomp] at hc; cases hc
  succeeded := hsucc

lemma follows_failed (s : State) (v : String) (w : Nat) (a : Writer) : Follows s v w a a.phase.failed := by
  cases hphase : a.phase with
  | creating | inspecting | reading | recovering | cleaning =>
    exact follows_of_idle rfl rfl rfl (fun _ => rfl) nofun
  | leased | staged | owned | compared | confirmed =>
    exact follows_of_idle rfl rfl rfl (fun _ => rfl) nofun
  | finishing | releasing | done =>
    exact follows_of_idle rfl rfl rfl (fun _ => rfl) (fun h => hphase ▸ h)

/-- The next phase under a lease, when it is not the comparison. -/
lemma follows_of_active (ha : a.phase.active = some created)
    (hp : p.active = some created) (hstrt : p.started) (haging : p.aging = none)
    (hcomp : ∀ c, p.comparedAt = some c → a.phase.comparedAt = some c)
    (hsucc : p.succeeded = false) (h : Exclusive v s) (hw : s.writers w = some a) : Follows s v w a p where
  active c hc := by rw [ha, ← hp, hc]
  started _ := hstrt
  aging _ hn := by rw [haging] at hn; cases hn
  compared c hexpects hc := (h.each w a hw).compared c hexpects (hcomp c hc)
  succeeded hs := by rw [hsucc] at hs; cases hs

section
variable (h : Exclusive v s)
include h

/-- A lease is created where there was none. -/
lemma Exclusive.create (ha : s.writers w = some a) (hlease : s.lease = none)
    (hphase : a.phase.started = false) : Exclusive v
      { s.setPhase w a (.leased s.now) with lease := some { nonce := w, created := s.now } } := by
  refine h.replace rfl (fun l hl => ?_) ⟨fun _ hc => ?_, nofun, nofun, (h.each w a ha).target, nofun⟩
    (fun m b hne _ hb => ⟨fun created hact hfresh => ?_, fun n hn => ?_, fun _ _ _ hl => ?_, hb.target, hb.moved⟩)
    nofun
  · cases hl
    refine ⟨{ a with phase := .leased s.now }, ?_, rfl, fun created hc => (Option.some.inj hc).symm⟩
    exact (writers_setPhase s w a _ w).trans (if_pos rfl)
  · cases hc
    exact fun _ => rfl
  · have hheld := hb.held created hact hfresh
    rw [hlease] at hheld
    cases hheld
  · obtain ⟨c, hc, hstrt, hold⟩ := hb.aging n hn
    have hn : n ≠ w := by
      rintro rfl
      rw [Option.some.inj (hc.symm.trans ha), hphase] at hstrt
      cases hstrt
    exact ⟨c, (writers_setPhase s w a _ n).trans ((if_neg hn).trans hc), hstrt, hold⟩
  · cases hl
    exact absurd rfl hne

/-- A lease is removed that no call needs any more. -/
lemma Exclusive.removeLease (hold : ∀ m b created, s.writers m = some b → b.phase.active = some created →
      ¬ s.now - created < refLockStaleMs) : Exclusive v { s with lease := none } := { h with
  lease := nofun
  each := fun m b hm => { h.each m b hm with
    held := fun created hactive hfresh => absurd hfresh (hold m b created hm hactive)
    compared := nofun } }

/-- The ref is renamed under a lease that is there. -/
lemma Exclusive.rename (ha : s.writers w = some a) {checked : Nat} (hphase : a.phase = .confirmed created checked)
    (hlease : s.lease = some { nonce := w, created := created }) :
    Exclusive v { s.setPhase w a (.finishing true) with ref := some a.target } := by
  have htgt : some a.target ≠ some v := fun heq => (h.each w a ha).target (Option.some.inj heq)
  refine h.replace rfl (fun l hl => ?_) ⟨nofun, nofun, nofun, (h.each w a ha).target, fun _ => htgt⟩
    (fun m b hne _ hb => ⟨hb.held, fun n hn => ?_, fun created' _ _ hl => ?_, hb.target, fun _ => htgt⟩)
    fun hexp _ m b _ hm _ hsucc => ?_
  · obtain ⟨b, hb, hstrt, hcr⟩ := h.lease l hl
    by_cases hw : l.nonce = w
    · refine ⟨{ a with phase := .finishing true }, ?_, rfl, nofun⟩
      exact (writers_setPhase s w a _ _).trans (if_pos hw)
    · exact ⟨b, (writers_setPhase s w a _ _).trans ((if_neg hw).trans hb), hstrt, hcr⟩
  · exact (hb.aging n hn).setPhase ha nofun fun _ => rfl
  · -- the lease is not another call's
    exact absurd (congrArg Lease.nonce (Option.some.inj (hlease.symm.trans hl))).symm hne
  · -- before, the ref was what this call has seen, so no other call had succeeded
    exact (h.each m b hm).moved hsucc ((h.each w a ha).compared created hexp (by rw [hphase]; rfl) hlease)

/-- The next step of a call, when it is timely. -/
lemma Exclusive.advance (ha : s.writers w = some a)
    (htim : Timely s (.advance w)) : Exclusive v (advance s w a) := by
  have hcond := htim a ha
  rw [RefLeases.advance]
  cases hphase : a.phase with
  | creating recoveredLease =>
    cases hlease : s.lease with
    | none => exact h.create ha hlease (by rw [hphase]; rfl)
    | some l =>
      refine h.setPhase ha ?_
      cases recoveredLease with
      | true => exact follows_of_idle rfl rfl rfl (fun _ => rfl) nofun
      | false =>
        refine follows_of_idle rfl rfl rfl (fun hs => ?_) nofun
        rw [hphase] at hs
        cases hs
  | inspecting =>
    cases hlease : s.lease with
    | none =>
      exact h.setPhase ha (follows_of_idle rfl rfl rfl (fun _ => rfl) nofun)
    | some l =>
      refine h.setPhase ha ?_
      split
      · exact follows_of_idle rfl rfl rfl (fun _ => rfl) nofun
      rename_i hage
      refine ⟨fun _ hc => (nomatch hc), fun hs => ?_, fun n hn => ?_, fun _ _ hc => (nomatch hc),
        fun hs => (nomatch hs)⟩
      · rw [hphase] at hs
        cases hs
      cases hn
      obtain ⟨b, hb, hstrt, hcr⟩ := h.lease l hlease
      refine ⟨b, hb, hstrt, fun created hc => ?_⟩
      rw [hcr created hc]
      exact Nat.not_lt.mp hage
  | reading aged =>
    cases hlease : s.lease with
    | none =>
      exact h.setPhase ha (follows_of_idle rfl rfl rfl (fun _ => rfl) nofun)
    | some l =>
      refine h.setPhase ha ⟨fun _ hc => (nomatch hc), fun hs => ?_, fun n hn => ?_,
        fun _ _ hc => (nomatch hc), fun hs => (nomatch hs)⟩
      · rw [hphase] at hs
        cases hs
      · exact (h.each w a ha).aging n (by rw [hphase]; exact hn)
  | recovering aged nonce =>
    rw [hphase] at hcond
    have hset : Exclusive v (s.setPhase w a (.cleaning nonce)) := by
      refine h.setPhase ha (follows_of_idle rfl rfl rfl (fun hs => ?_) nofun)
      rw [hphase] at hs
      cases hs
    refine hset.removeLease ?_
    intro m b created hm hact hfresh
    rcases writers_cases hm with ⟨rfl, rfl⟩ | ⟨-, hm⟩
    · cases hact
    -- the lease is that of the aged call
    have hheld := (h.each m b hm).held created hact hfresh
    have hnonce : m = aged := hcond _ hheld
    obtain ⟨b', hb', -, hold⟩ := (h.each w a ha).aging aged (by rw [hphase]; rfl)
    rw [← hnonce] at hb'
    cases hm.symm.trans hb'
    exact absurd hfresh (Nat.not_lt.mpr (hold created hact))
  | cleaning nonce =>
    refine (h.setPhase ha ?_).withStages _
    refine follows_of_idle rfl rfl rfl (fun hs => ?_) nofun
    rw [hphase] at hs
    cases hs
  | leased created =>
    refine (h.setPhase ha ?_).withStages _
    exact follows_of_active (by rw [hphase]; rfl) rfl rfl rfl (fun _ hc => nomatch hc) rfl h ha
  | staged created =>
    refine h.setPhase ha ?_
    split
    · exact follows_of_active (by rw [hphase]; rfl) rfl rfl rfl (fun _ hc => nomatch hc) rfl h ha
    · exact follows_of_idle rfl rfl rfl (fun _ => rfl) nofun
  | owned created =>
    refine h.setPhase ha ?_
    split
    · rename_i hcomp
      refine ⟨fun c hc => ?_, fun _ => rfl, fun n hn => (nomatch hn), fun c hexp _ _ => ?_, fun hs => (nomatch hs)⟩
      · rw [hphase]
        exact hc
      · rw [hexp.1, hexp.2] at hcomp
        simpa using hcomp
    · exact follows_of_idle rfl rfl rfl (fun _ => rfl) nofun
  | compared created =>
    refine h.setPhase ha ?_
    split
    · exact follows_of_active (by rw [hphase]; rfl) rfl rfl rfl (fun c hc => by rw [hphase]; exact hc)
        rfl h ha
    · exact follows_of_idle rfl rfl rfl (fun _ => rfl) nofun
  | confirmed created checked =>
    rw [hphase] at hcond
    simp only
    split
    · refine (h.rename ha hphase ?_).withStages _
      rcases hcond with howns | hfresh
      · obtain ⟨l, hl, rfl⟩ := Option.map_eq_some_iff.mp (of_decide_eq_true howns)
        obtain ⟨b, hb, -, hcr⟩ := h.lease l hl
        cases hb.symm.trans ha
        rw [hl, hcr created (by rw [hphase]; rfl)]
      · exact (h.each w a ha).held created (by rw [hphase]; rfl) hfresh
    · exact h.setPhase ha (follows_of_idle rfl rfl rfl (fun _ => rfl) nofun)
  | finishing succeeded =>
    refine (h.setPhase ha ?_).withStages _
    split
    · exact follows_of_idle rfl rfl rfl (fun _ => rfl) (fun hs => hphase ▸ hs)
    · exact follows_of_idle rfl rfl rfl (fun _ => rfl) (fun hs => hphase ▸ hs)
  | releasing succeeded =>
    rw [hphase] at hcond
    have hset : Exclusive v (s.setPhase w a (.done succeeded)) :=
      h.setPhase ha (follows_of_idle rfl rfl rfl (fun _ => rfl) (fun hs => hphase ▸ hs))
    refine hset.removeLease ?_
    intro m b created hm hact hfresh
    rcases writers_cases hm with ⟨rfl, rfl⟩ | ⟨hne, hm⟩
    · cases hact
    · exact hne (hcond _ ((h.each m b hm).held created hact hfresh))
  | done succeeded => exact h

/-- Time passes. -/
lemma Exclusive.wait (ms : Nat) : Exclusive v { s with now := s.now + ms } := { h with
  each := fun m b hm => { h.each m b hm with
    held := fun created hactive hfresh =>
      (h.each m b hm).held created hactive (by simp only at hfresh; omega)
    aging := fun n hn => by
      obtain ⟨c, hc, hstrt, hold⟩ := (h.each m b hm).aging n hn
      refine ⟨c, hc, hstrt, fun created hact => ?_⟩
      have hage := hold created hact
      simp only
      omega } }

/-- A call begins. -/
lemma Exclusive.begin (hnew : s.writers w = none)
    (htgt : a.target ≠ v) : Exclusive v (s.setPhase w a (.creating false)) := by
  have hold : ∀ n b, s.writers n = some b → (s.setPhase w a (.creating false)).writers n = some b := by
    intro n b hb
    have hn : n ≠ w := by
      rintro rfl
      rw [hnew] at hb
      cases hb
    exact (writers_setPhase s w a _ n).trans ((if_neg hn).trans hb)
  refine h.replace rfl (fun l hl => ?_) ⟨nofun, nofun, nofun, htgt, nofun⟩
    (fun m b _ _ hb => { hb with aging := fun n hn => ?_ }) nofun
  · obtain ⟨b, hb, hspec⟩ := h.lease l hl
    exact ⟨b, hold l.nonce b hb, hspec⟩
  · obtain ⟨c, hc, hspec⟩ := hb.aging n hn
    exact ⟨c, hold n c hc, hspec⟩

end

/-- No call has this value as its target. -/
def Avoids (v : String) : Event → Prop
  | .begin _ target _ _ => target ≠ v
  | _ => True

instance (v : String) (e : Event) : Decidable (Avoids v e) :=
  match e with
  | .begin _ target _ _ => inferInstanceAs (Decidable (target ≠ v))
  | .wait _ | .advance _ | .fail _ => inferInstanceAs (Decidable True)

lemma Exclusive.step (h : Exclusive v s) {e : Event} (htim : Timely s e) (havo : Avoids v e) :
    Exclusive v (step s e) := by
  cases e with
  | wait ms => exact h.wait ms
  | begin w target expected force =>
    rw [RefLeases.step]
    cases hw : s.writers w with
    | some a => exact h
    | none => exact h.begin hw havo
  | advance w =>
    rw [RefLeases.step]
    cases hw : s.writers w with
    | none => exact h
    | some a => exact h.advance hw htim
  | fail w =>
    rw [RefLeases.step]
    cases hw : s.writers w with
    | none => exact h
    | some a => exact h.setPhase hw (follows_failed s v w a)

lemma Exclusive.run (h : Exclusive v s) (htim : Along Timely s events)
    (havo : ∀ e ∈ events, Avoids v e) : Exclusive v (run s events) := by
  induction events generalizing s with
  | nil => exact h
  | cons e events ih =>
    exact ih (h.step htim.1 (havo e List.mem_cons_self)) htim.2
      fun e' he' => havo e' (List.mem_cons_of_mem e he')

end Steps

lemma exclusive_startState (v : String) (ref : Option String) (now : Nat) : Exclusive v (startState ref now) where
  lease _ hl := by cases hl
  each _ _ hw := by cases hw
  unique _ _ _ _ hw := by cases hw

/-- Two calls that compare the ref with the same value do not both succeed, in a run in which refs are
renamed under leases that are there or not yet old, a lease is removed by none but who has found it so,
and no call has that value as its target. -/
lemma updateRef_exclusive {ref : Option String} {now : Nat}
    (htim : Along Timely (startState ref now) events) (havo : ∀ e ∈ events, Avoids v e)
    {w w' : Nat} {a a' : Writer} (hw : (run (startState ref now) events).writers w = some a)
    (hw' : (run (startState ref now) events).writers w' = some a') (hne : w ≠ w')
    (hexp : a.Expects v) (hexp' : a'.Expects v) : ¬ (a.phase.succeeded ∧ a'.phase.succeeded) := by
  rintro ⟨hsucc, hsucc'⟩
  have hexcl := (exclusive_startState v ref now).run htim havo
  exact hne (hexcl.unique w w' a a' hw hw' hexp hexp' hsucc hsucc')

/-- The first call stops with its lease in place. When it is old two calls recover it, and the second
of them removes the lease of the first. -/
def recoveredTwice : List Event :=
  [.begin 0 "x" (some "v") false, .advance 0, .wait refLockStaleMs,
    .begin 1 "a" (some "v") false, .begin 2 "b" (some "v") false, .advance 1, .advance 2,
    .advance 1, .advance 2, .advance 1, .advance 2] ++
  List.replicate 7 (.advance 1) ++ List.replicate 7 (.advance 2) ++ [.advance 1, .advance 2]

/-- Both calls succeed, each right after its last check. -/
lemma both_succeed : Along Prompt (startState (some "v") 0) recoveredTwice ∧
      (run (startState (some "v") 0) recoveredTwice).writers 1
        = some { target := "a", expected := some "v", force := false, phase := .finishing true } ∧
      (run (startState (some "v") 0) recoveredTwice).writers 2
        = some { target := "b", expected := some "v", force := false, phase := .finishing true } :=
  ⟨by decide +kernel, by decide +kernel, by decide +kernel⟩

end RefLeases
