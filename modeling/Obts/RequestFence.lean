import Mathlib.Data.List.Nodup
import Mathlib.Data.List.Perm.Basic
import Obts.LabelledRuns

/-!
# The fence of a request

What one request acquires is released when the request has ended and its handler is not running.
The request ends by an abort, the close of its socket, the error hook or the response hook, in any
order and any number of times, and what its hooks and its handler acquire arrives after awaits.
-/
namespace RequestFence

open List Option
open Bool (not_eq_true or_eq_true or_true)

inductive Kind where
  | lease
  | admission

inductive Handler where
  | pending
  | running
  | done
  deriving DecidableEq

/-- The leases and admissions of a request are numbered. -/
structure Fence where
  lease : Option Nat := none
  admission : Option Nat := none
  ended : Bool := false
  aborted : Bool := false
  handler : Handler := .pending
  pipelineClosed : Bool := false
  released : Bool := false
  hijacked : Bool := false

namespace Fence

variable (fence : Fence)

def get : Kind → Option Nat
  | .lease => fence.lease
  | .admission => fence.admission

def set (held : Nat) : Kind → Fence
  | .lease => { fence with lease := some held }
  | .admission => { fence with admission := some held }

def heldIds : List Nat := fence.admission.toList ++ fence.lease.toList

/-- The condition under which `releaseFenceIfSettled` goes on. -/
def isSettled : Bool :=
  !fence.released && fence.ended && fence.handler ≠ .running &&
    !(fence.handler = .pending && !fence.pipelineClosed && !fence.aborted)

end Fence

/-- How far the `onRequest` hook has come that admits the request. -/
inductive Hook where
  | deciding
  /-- A device is authenticated and its lease awaited. -/
  | awaitingLease
  | awaitingAdmission
  | passed
  | failed
  deriving DecidableEq

/-- What the hook finds the request to be. -/
inductive Route where
  | unfenced
  | session
  | device

/-- A request, with everything that was acquired for it and released, in order, and what had been
acquired when the body of its handler started. -/
structure State where
  fence : Fence := {}
  hook : Hook := .deciding
  /-- Leases that the handler awaits. -/
  awaited : Nat := 0
  bodyStarted : Bool := false
  acquired : List Nat := []
  releases : List Nat := []
  acquiredBefore : List Nat := []

inductive Label where
  | route (route : Route)
  | hookLease (held : Nat)
  | hookAdmission (held : Nat)
  | hookFails
  | abort
  | close (writableFinished : Bool)
  | error
  | response
  | handlerStarts (rawAborted : Bool)
  | authenticateDevice
  | handlerLease (held : Nat)
  | handlerLeaseFails
  | hijack
  | handlerSettles

namespace State

variable (s : State)

def releaseFenceIfSettled : State :=
  if s.fence.isSettled then
    { s with
      fence := { s.fence with released := true, admission := none, lease := none }
      releases := s.releases ++ s.fence.heldIds }
  else s

/-- Takes over what was acquired, or releases it at once. A hijacked request's also throws. -/
def holdForRequest (kind : Kind) (held : Nat) : State :=
  let s := { s with acquired := s.acquired ++ [held] }
  if s.fence.hijacked || s.fence.released || (s.fence.get kind).isSome then
    { s with releases := s.releases ++ [held] }
  else { s with fence := s.fence.set held kind }

def endRequestLifecycle (pipelineClosed aborted : Bool) : State :=
  releaseFenceIfSettled { s with fence := { s.fence with
    ended := true
    pipelineClosed := s.fence.pipelineClosed || pipelineClosed
    aborted := s.fence.aborted || aborted } }

/-- The handler returned, threw, or its promise was settled. -/
def settle : State :=
  releaseFenceIfSettled { s with fence := { s.fence with handler := .done } }

/-- `fencedHandler`, up to the call of the route's own handler. -/
def fencedHandler (rawAborted : Bool) : State :=
  let s := if rawAborted then s.endRequestLifecycle false true else s
  if s.fence.released || s.fence.aborted then s.settle
  else { s with
    fence := { s.fence with handler := .running }
    bodyStarted := true
    acquiredBefore := s.acquired }

/-- A reply is sent by the error path, which runs the error hook first, or by the handler. -/
def hasReplied : Bool := s.fence.pipelineClosed || s.fence.handler ≠ .pending

/-- What can happen next. Fastify starts the handler once, after the hooks passed. -/
def step : Label → Option State
  | .route route =>
    if s.hook = .deciding then
      match route with
      | .unfenced => some { s with hook := .passed }
      | .session => some { s with hook := .awaitingAdmission }
      | .device => some { s with
          hook := if s.fence.lease = none then .awaitingLease else .awaitingAdmission }
    else none
  | .hookLease held =>
    if s.hook = .awaitingLease ∧ held ∉ s.acquired then
      some { s.holdForRequest .lease held with
        hook := if s.fence.hijacked then .failed else .awaitingAdmission }
    else none
  | .hookAdmission held =>
    if s.hook = .awaitingAdmission ∧ held ∉ s.acquired then
      some { s.holdForRequest .admission held with
        hook := if s.fence.hijacked then .failed else .passed }
    else none
  | .hookFails =>
    if s.hook ≠ .passed then some { s with hook := .failed } else none
  | .abort => some (s.endRequestLifecycle false true)
  | .close writableFinished =>
    if writableFinished = true → s.hasReplied = true then
      some (s.endRequestLifecycle false !writableFinished)
    else none
  | .error => some (s.endRequestLifecycle true false)
  | .response => some (s.endRequestLifecycle true false)
  | .handlerStarts rawAborted =>
    if s.hook = .passed ∧ s.fence.handler = .pending then some (s.fencedHandler rawAborted) else none
  | .authenticateDevice =>
    if s.bodyStarted = true then
      some { s with awaited := if s.fence.lease = none then s.awaited + 1 else s.awaited }
    else none
  | .handlerLease held =>
    if 0 < s.awaited ∧ held ∉ s.acquired then
      some { s.holdForRequest .lease held with awaited := s.awaited - 1 }
    else none
  | .handlerLeaseFails =>
    if 0 < s.awaited then some { s with awaited := s.awaited - 1 } else none
  | .hijack =>
    if s.fence.handler = .running then
      if s.fence.lease = none ∧ s.fence.admission = none then
        some { s with fence := { s.fence with hijacked := true } }
      else some s
    else none
  | .handlerSettles =>
    if s.fence.handler = .running then some s.settle else none

def run (s : State) : List Label → Option State
  | [] => some s
  | label :: labels => (s.step label).bind fun s => s.run labels

end State

/-- Everything acquired is released once or held by the fence; and before the handler starts the
fence holds all of it, unless it was released. -/
structure Owned (s : State) : Prop where
  acquired : s.acquired.Nodup
  owned : (s.releases ++ s.fence.heldIds).Perm s.acquired
  released : s.fence.released = true → s.fence.heldIds = [] ∧ s.fence.handler ≠ .running
  started : s.hook ≠ .passed → s.fence.handler = .pending
  hijacked : s.fence.hijacked = true → s.fence.handler ≠ .pending
  body : s.bodyStarted = true ∨ 0 < s.awaited → s.fence.handler ≠ .pending
  unreleased : s.fence.handler = .pending → s.fence.released = false → s.releases = []
  lease : s.hook = .deciding ∨ s.hook = .awaitingLease → s.fence.lease = none
  admission : s.hook ≠ .passed → s.hook ≠ .failed → s.fence.admission = none
  running : s.fence.handler = .running → ∀ held ∈ s.acquiredBefore, held ∈ s.fence.heldIds

/-- The fence is released as soon as it may be. -/
structure Fenced (s : State) : Prop where
  owned : Owned s
  settled : s.fence.ended = true → s.fence.handler ≠ .running → s.fence.released = true

section Steps
variable {s s' : State} {kind : Kind} {held : Nat} {fence : Fence}

lemma heldIds_set (hnone : fence.get kind = none) :
    (fence.set held kind).heldIds.Perm (fence.heldIds ++ [held]) := by
  cases kind with
  | lease =>
    change (fence.admission.toList ++ [held]).Perm ((fence.admission.toList ++ fence.lease.toList) ++ [held])
    rw [show fence.lease = none from hnone]
    simp
  | admission =>
    change ([held] ++ fence.lease.toList).Perm ((fence.admission.toList ++ fence.lease.toList) ++ [held])
    rw [show fence.admission = none from hnone]
    exact perm_append_comm

/-- What the conditions say of a fence does not depend on how it was ended. -/
lemma Owned.withFence (h : Owned s) (hlease : fence.lease = s.fence.lease)
    (hadm : fence.admission = s.fence.admission) (hhdl : fence.handler = s.fence.handler)
    (hreleased : fence.released = s.fence.released)
    (hhij : fence.hijacked → fence.handler ≠ .pending) : Owned { s with fence } := by
  have hheld : fence.heldIds = s.fence.heldIds := by
    rw [Fence.heldIds, hlease, hadm, Fence.heldIds]
  refine ⟨h.acquired, hheld ▸ h.owned, fun hrel => ?_, fun hhook => ?_, hhij, fun hbody => ?_,
    fun hpend hrel => ?_, fun hhook => ?_, fun hhook hfail => ?_, fun hrunn => ?_⟩
  · obtain ⟨hnil, hrun⟩ := h.released (hreleased ▸ hrel)
    exact ⟨hheld.trans hnil, fun heq => hrun (hhdl ▸ heq)⟩
  · exact hhdl.trans (h.started hhook)
  · exact fun heq => h.body hbody (hhdl ▸ heq)
  · exact h.unreleased (hhdl ▸ hpend) (hreleased ▸ hrel)
  · exact hlease.trans (h.lease hhook)
  · exact hadm.trans (h.admission hhook hfail)
  · intro held hmem
    rw [hheld]
    exact h.running (hhdl ▸ hrunn) held hmem

lemma Owned.release (h : Owned s) : Owned s.releaseFenceIfSettled := by
  unfold State.releaseFenceIfSettled
  split
  · rename_i hstl
    simp only [Fence.isSettled, Bool.and_eq_true, Bool.not_eq_true', decide_eq_true_eq, ne_eq] at hstl
    refine ⟨h.acquired, ?_, fun _ => ⟨rfl, hstl.1.2⟩, h.started, h.hijacked, h.body,
      fun _ hrel => ?_, fun _ => rfl, fun _ _ => rfl, fun hrun => absurd hrun hstl.1.2⟩
    · rw [show Fence.heldIds { s.fence with released := true, admission := none, lease := none } = []
        from rfl, append_nil]
      exact h.owned
    · cases hrel
  · exact h

/-- What is settled is released. -/
lemma released_of_settled (hcause : s.fence.handler ≠ .pending ∨ s.fence.pipelineClosed ∨ s.fence.aborted)
    (hended : s.fence.ended) (hrun : s.fence.handler ≠ .running) :
    s.releaseFenceIfSettled.fence.released := by
  unfold State.releaseFenceIfSettled
  split
  · rfl
  rename_i huns
  by_contra hrel
  rw [not_eq_true] at hrel
  refine huns ?_
  simp only [Fence.isSettled, hrel, hended, hrun, Bool.not_false, Bool.true_and, ne_eq,
    not_false_eq_true, decide_true, Bool.not_eq_true', Bool.and_eq_false_iff, decide_eq_false_iff_not,
    Bool.not_eq_false']
  rcases hcause with h | h | h
  · exact .inl (.inl h)
  · exact .inl (.inr h)
  · exact .inr h

lemma releaseFenceIfSettled_fence (s : State) : s.releaseFenceIfSettled.fence.ended = s.fence.ended ∧
      s.releaseFenceIfSettled.fence.handler = s.fence.handler := by
  unfold State.releaseFenceIfSettled
  split
  · exact ⟨rfl, rfl⟩
  · exact ⟨rfl, rfl⟩

/-- The request ends for a cause, or when a reply was sent. -/
lemma Fenced.endRequestLifecycle (h : Fenced s) {pipelineClosed aborted : Bool}
    (hcause : pipelineClosed ∨ aborted ∨ s.hasReplied) : Fenced (s.endRequestLifecycle pipelineClosed aborted) := by
  unfold State.endRequestLifecycle
  have hfence : Owned { s with fence := { s.fence with
      ended := true
      pipelineClosed := s.fence.pipelineClosed || pipelineClosed
      aborted := s.fence.aborted || aborted } } :=
    h.owned.withFence rfl rfl rfl rfl h.owned.hijacked
  refine ⟨hfence.release, fun _ hrun => ?_⟩
  rw [(releaseFenceIfSettled_fence _).2] at hrun
  refine released_of_settled ?_ rfl hrun
  rcases hcause with rfl | rfl | hrepl
  · exact .inr (.inl (or_true _))
  · exact .inr (.inr (or_true _))
  rw [State.hasReplied, or_eq_true, decide_eq_true_eq] at hrepl
  rcases hrepl with hcls | hhdl
  · exact .inr (.inl (by rw [hcls, Bool.true_or]))
  · exact .inl hhdl

/-- The handler is over. -/
lemma Owned.settle (h : Owned s) (hhook : s.hook = .passed) : Fenced s.settle := by
  unfold State.settle
  have hdone : Owned { s with fence := { s.fence with handler := .done } } := by
    refine ⟨h.acquired, h.owned, fun hrel => ⟨(h.released hrel).1, fun heq => by cases heq⟩,
      fun hother => absurd hhook hother, fun _ heq => (by cases heq), fun _ heq => (by cases heq),
      fun heq => (by cases heq), h.lease, h.admission, fun heq => (by cases heq)⟩
  refine ⟨hdone.release, fun hended hrun => ?_⟩
  rw [(releaseFenceIfSettled_fence _).1] at hended
  rw [(releaseFenceIfSettled_fence _).2] at hrun
  exact released_of_settled (.inl fun heq => by cases heq) hended hrun

/-- A fence that is not released holds everything acquired so far, once the hooks passed. -/
lemma Owned.perm_heldIds (h : Owned s) (hpend : s.fence.handler = .pending)
    (hrel : s.fence.released = false) : s.fence.heldIds.Perm s.acquired := by
  have howned := h.owned
  rw [h.unreleased hpend hrel, nil_append] at howned
  exact howned

/-- The fence afterwards: it is the same, or has the new one in the place that was free. -/
lemma holdForRequest_fence (s : State) (kind : Kind) (held : Nat) :
    (s.fence.hijacked || s.fence.released || (s.fence.get kind).isSome) ∧ s.holdForRequest kind held
          = { s with acquired := s.acquired ++ [held], releases := s.releases ++ [held] } ∨
      s.fence.released = false ∧ s.fence.get kind = none ∧ s.holdForRequest kind held
          = { s with acquired := s.acquired ++ [held], fence := s.fence.set held kind } := by
  unfold State.holdForRequest
  dsimp only
  split
  · rename_i href
    exact .inl ⟨href, rfl⟩
  rename_i hkept
  rw [or_eq_true, or_eq_true, not_or, not_or, not_eq_true, not_eq_true,
    not_eq_true, isSome_eq_false_iff, isNone_iff_eq_none] at hkept
  exact .inr ⟨hkept.1.2, hkept.2, rfl⟩

lemma set_other_fields (fence : Fence) (held : Nat) (kind : Kind) :
    (fence.set held kind).handler = fence.handler ∧ (fence.set held kind).released = fence.released ∧
      (fence.set held kind).ended = fence.ended ∧ (fence.set held kind).hijacked = fence.hijacked := by
  cases kind with
  | lease | admission => exact ⟨rfl, rfl, rfl, rfl⟩

/-- What is acquired before the handler starts goes into its free place, or is released because the
fence was. -/
lemma Fenced.hook (h : Fenced s) {next : Hook} (hstage : s.hook ≠ .passed)
    (hfresh : held ∉ s.acquired) (hfree : s.fence.get kind = none)
    (hlease : next = .deciding ∨ next = .awaitingLease → False) (hadm : kind = .admission → next = .passed)
    (hsame : next ≠ .passed → next ≠ .failed → s.fence.admission = none) :
    Fenced { s.holdForRequest kind held with hook := next } := by
  have hpend := h.owned.started hstage
  have hnodup : (s.acquired ++ [held]).Nodup :=
    nodup_append.mpr ⟨h.owned.acquired, nodup_singleton held, fun a ha b hb heq =>
      hfresh (mem_singleton.mp hb ▸ heq ▸ ha)⟩
  have hunh : s.fence.hijacked = false := by
    rw [← not_eq_true]
    exact fun heq => h.owned.hijacked heq hpend
  rcases holdForRequest_fence s kind held with ⟨href, heq⟩ | ⟨hreleased, hnone, heq⟩
  · have hreleased : s.fence.released = true := by
      rw [hunh, hfree, isSome_none, Bool.or_false, Bool.false_or] at href
      exact href
    rw [heq]
    refine ⟨⟨hnodup, ?_, h.owned.released, fun _ => hpend, h.owned.hijacked, h.owned.body,
      fun _ hunr => ?_, fun hhook => (hlease hhook).elim, hsame, h.owned.running⟩, h.settled⟩
    · have hnil := (h.owned.released hreleased).1
      have howned := h.owned.owned
      rw [hnil, append_nil] at howned
      rw [hnil, append_nil]
      exact howned.append_right [held]
    · rw [hreleased] at hunr
      cases hunr
  · obtain ⟨hhdl, hrel, hended, hhij⟩ := set_other_fields s.fence held kind
    rw [heq]
    refine ⟨⟨hnodup, ?_, fun hset => ?_, fun _ => hhdl.trans hpend, fun hset => ?_, fun hbody => ?_,
      fun _ _ => h.owned.unreleased hpend hreleased, fun hhook => (hlease hhook).elim,
      fun hhook hfail => ?_, fun hrun => ?_⟩, fun hend hrun => ?_⟩
    · refine ((heldIds_set hnone).append_left s.releases).trans ?_
      rw [← append_assoc]
      exact h.owned.owned.append_right [held]
    · have hset : s.fence.released = true := hrel ▸ hset
      rw [hreleased] at hset
      cases hset
    · have hset : s.fence.hijacked = true := hhij ▸ hset
      rw [hunh] at hset
      cases hset
    · exact absurd hpend (h.owned.body hbody)
    · cases kind with
      | lease => exact hsame hhook hfail
      | admission => exact absurd (hadm rfl) hhook
    · have hrun : s.fence.handler = .running := hhdl ▸ hrun
      rw [hpend] at hrun
      cases hrun
    · have hreleased' := h.settled (hended ▸ hend) fun heq => hrun (hhdl.trans heq)
      rw [hreleased] at hreleased'
      cases hreleased'

/-- What the handler acquires is held if the place is free, and released otherwise. -/
lemma Fenced.handler (h : Fenced s) {awaited : Nat}
    (hstrt : s.fence.handler ≠ .pending) (hfresh : held ∉ s.acquired) :
    Fenced { s.holdForRequest .lease held with awaited } := by
  have hpass : s.hook = .passed := by
    by_contra hhook
    exact hstrt (h.owned.started hhook)
  have hnodup : (s.acquired ++ [held]).Nodup :=
    nodup_append.mpr ⟨h.owned.acquired, nodup_singleton held, fun a ha b hb heq =>
      hfresh (mem_singleton.mp hb ▸ heq ▸ ha)⟩
  rcases holdForRequest_fence s .lease held with ⟨-, heq⟩ | ⟨hrel, hnone, heq⟩
  · rw [heq]
    refine ⟨{ h.owned with
      acquired := hnodup, owned := ?_, body := fun _ => hstrt,
      unreleased := fun hpend => absurd hpend hstrt },
      h.settled⟩
    have howned := h.owned.owned.append_right [held]
    rw [append_assoc] at howned ⊢
    exact (perm_append_comm.append_left s.releases).trans howned
  · rw [heq]
    refine ⟨⟨hnodup, ?_, fun hset => ?_, fun hhook => absurd hpass hhook, fun _ => hstrt,
      fun _ => hstrt, fun hpend => absurd hpend hstrt, fun hhook => ?_,
      fun hhook => absurd hpass hhook, fun hrun other hmem => ?_⟩, h.settled⟩
    · refine ((heldIds_set hnone).append_left s.releases).trans ?_
      rw [← append_assoc]
      exact h.owned.owned.append_right [held]
    · have hset : s.fence.released = true := hset
      rw [hrel] at hset
      cases hset
    · rw [hpass] at hhook
      rcases hhook with hhook | hhook
      · cases hhook
      · cases hhook
    · exact (heldIds_set hnone).mem_iff.mpr (mem_append_left _ (h.owned.running hrun other hmem))

/-- The body starts with everything that was acquired still held, or does not start. -/
lemma Fenced.fencedHandler (h : Fenced s) (hhook : s.hook = .passed)
    (hpend : s.fence.handler = .pending) (rawAborted : Bool) : Fenced (s.fencedHandler rawAborted) := by
  unfold State.fencedHandler
  generalize hs' : (if rawAborted = true then s.endRequestLifecycle false true else s) = s'
  have h' : Fenced s' ∧ s'.hook = .passed ∧ s'.fence.handler = .pending := by
    subst hs'
    split
    · refine ⟨h.endRequestLifecycle (.inr (.inl rfl)), ?_, ?_⟩
      · unfold State.endRequestLifecycle State.releaseFenceIfSettled
        split
        · exact hhook
        · exact hhook
      · exact (releaseFenceIfSettled_fence _).2.trans hpend
    · exact ⟨h, hhook, hpend⟩
  obtain ⟨h', hhook', hpend'⟩ := h'
  dsimp only
  split
  · exact h'.owned.settle hhook'
  rename_i hlive
  rw [or_eq_true, not_or, not_eq_true, not_eq_true] at hlive
  have hperm := h'.owned.perm_heldIds hpend' hlive.1
  refine ⟨⟨h'.owned.acquired, h'.owned.owned, fun hrel => ?_, fun hother => absurd hhook' hother,
    fun _ heq => (by cases heq), fun _ heq => (by cases heq), fun heq => (by cases heq), h'.owned.lease,
    h'.owned.admission, fun _ held hmem => hperm.mem_iff.mpr hmem⟩, fun _ hrun => absurd rfl hrun⟩
  rw [show s'.fence.released = true from hrel] at hlive
  cases hlive.1

lemma Fenced.step (h : Fenced s) {label : Label} (hstep : s.step label = some s') : Fenced s' := by
  cases label with
  | route route =>
    obtain ⟨hdec, hstep⟩ := ite_none_right_eq_some.mp hstep
    have hpend := h.owned.started (by rw [hdec]; exact Hook.noConfusion)
    have hlease := h.owned.lease (.inl hdec)
    have hadm := h.owned.admission (by rw [hdec]; exact Hook.noConfusion) (by rw [hdec]; exact Hook.noConfusion)
    have hnext : ∀ hook, Fenced { s with hook } := fun hook =>
      ⟨{ h.owned with
        started := fun _ => hpend, lease := fun _ => hlease, admission := fun _ _ => hadm },
        h.settled⟩
    cases route with
    | unfenced =>
      cases hstep
      exact hnext .passed
    | session =>
      cases hstep
      exact hnext .awaitingAdmission
    | device =>
      cases hstep
      exact hnext _
  | hookLease held =>
    obtain ⟨hguard, ⟨⟩⟩ := ite_none_right_eq_some.mp hstep
    have hnone := h.owned.lease (.inr hguard.1)
    have hadm := h.owned.admission (by rw [hguard.1]; exact Hook.noConfusion)
      (by rw [hguard.1]; exact Hook.noConfusion)
    refine h.hook (by rw [hguard.1]; exact Hook.noConfusion) hguard.2 hnone (fun hnext => ?_)
      (fun heq => by cases heq) fun _ _ => hadm
    split at hnext
    · rcases hnext with hnext | hnext
      · cases hnext
      · cases hnext
    rcases hnext with hnext | hnext
    · cases hnext
    · cases hnext
  | hookAdmission held =>
    obtain ⟨hguard, ⟨⟩⟩ := ite_none_right_eq_some.mp hstep
    have hstage : s.hook ≠ .passed := by
      rw [hguard.1]
      exact Hook.noConfusion
    have hadm := h.owned.admission hstage (by rw [hguard.1]; exact Hook.noConfusion)
    have hunh : s.fence.hijacked = false := by
      rw [← not_eq_true]
      exact fun heq => h.owned.hijacked heq (h.owned.started hstage)
    rw [hunh, if_neg Bool.false_ne_true]
    refine h.hook hstage hguard.2 hadm (fun hnext => ?_) (fun _ => rfl) fun hnext => absurd rfl hnext
    rcases hnext with hnext | hnext
    · cases hnext
    · cases hnext
  | hookFails =>
    obtain ⟨hhook, ⟨⟩⟩ := ite_none_right_eq_some.mp hstep
    refine ⟨{ h.owned with
      started := fun _ => h.owned.started hhook, lease := fun hnext => ?_,
      admission := fun _ hfail => absurd rfl hfail }, h.settled⟩
    rcases hnext with hnext | hnext
    · cases hnext
    · cases hnext
  | abort =>
    cases hstep
    exact h.endRequestLifecycle (.inr (.inl rfl))
  | close writableFinished =>
    obtain ⟨hrepl, ⟨⟩⟩ := ite_none_right_eq_some.mp hstep
    cases writableFinished with
    | true => exact h.endRequestLifecycle (.inr (.inr (hrepl rfl)))
    | false => exact h.endRequestLifecycle (.inr (.inl rfl))
  | error | response =>
    cases hstep
    exact h.endRequestLifecycle (.inl rfl)
  | handlerStarts rawAborted =>
    obtain ⟨hguard, ⟨⟩⟩ := ite_none_right_eq_some.mp hstep
    exact h.fencedHandler hguard.1 hguard.2 rawAborted
  | authenticateDevice =>
    obtain ⟨hbody, ⟨⟩⟩ := ite_none_right_eq_some.mp hstep
    exact ⟨{ h.owned with body := fun _ => h.owned.body (.inl hbody) }, h.settled⟩
  | handlerLease held =>
    obtain ⟨hguard, ⟨⟩⟩ := ite_none_right_eq_some.mp hstep
    exact h.handler (h.owned.body (.inr hguard.1)) hguard.2
  | handlerLeaseFails =>
    obtain ⟨hawt, ⟨⟩⟩ := ite_none_right_eq_some.mp hstep
    exact ⟨{ h.owned with body := fun _ => h.owned.body (.inr hawt) }, h.settled⟩
  | hijack =>
    obtain ⟨hrun, hstep⟩ := ite_none_right_eq_some.mp hstep
    split at hstep
    · cases hstep
      refine ⟨h.owned.withFence rfl rfl rfl rfl fun _ heq => ?_, h.settled⟩
      rw [show s.fence.handler = .running from hrun] at heq
      cases heq
    · cases hstep
      exact h
  | handlerSettles =>
    obtain ⟨hrun, ⟨⟩⟩ := ite_none_right_eq_some.mp hstep
    refine h.owned.settle ?_
    by_contra hhook
    rw [h.owned.started hhook] at hrun
    cases hrun

lemma Fenced.run {labels : List Label} (h : Fenced s) (hrun : s.run labels = some s') : Fenced s' :=
  LabelledRuns.inv_run hrun (fun _ => rfl) (fun _ _ _ => rfl) (·.step ·) h

/-- The fence of a request that was just received. -/
lemma fenced_start : Fenced {} := by
  refine ⟨⟨nodup_nil, List.Perm.nil, fun h => ?_, fun _ => rfl, fun h => ?_, fun h => ?_,
    fun _ _ => rfl, fun _ => rfl, fun _ _ => rfl, fun h => ?_⟩, fun h => ?_⟩
  · cases h
  · cases h
  · rcases h with h | h
    · cases h
    · exact absurd h (Nat.lt_irrefl 0)
  · cases h
  · cases h

end Steps

/-- The body of the handler runs only while everything acquired before it started is unreleased;
nothing is released twice; and when the request has ended and the handler is not running, everything
acquired so far has been released. -/
theorem acquisitions_fenced {labels : List Label} {s : State} (hrun : State.run {} labels = some s) :
    (s.fence.handler = .running → ∀ held ∈ s.acquiredBefore, held ∈ s.acquired ∧ held ∉ s.releases) ∧
    s.releases.Nodup ∧ (∀ held ∈ s.releases, held ∈ s.acquired) ∧
    (s.fence.ended = true → s.fence.handler ≠ .running → ∀ held ∈ s.acquired, s.releases.count held = 1) := by
  have h := fenced_start.run hrun
  have hnodup : (s.releases ++ s.fence.heldIds).Nodup := h.owned.owned.nodup_iff.mpr h.owned.acquired
  refine ⟨fun hrunn held hmem => ?_, hnodup.of_append_left, fun held hmem => ?_, fun hended hrunn held hmem => ?_⟩
  · have hheld := h.owned.running hrunn held hmem
    exact ⟨h.owned.owned.mem_iff.mp (mem_append_right _ hheld),
      fun hrel => disjoint_of_nodup_append hnodup hrel hheld⟩
  · exact h.owned.owned.mem_iff.mp (mem_append_left _ hmem)
  · have hnil := (h.owned.released (h.settled hended hrunn)).1
    have howned := h.owned.owned
    rw [hnil, append_nil] at howned
    exact count_eq_one_of_mem hnodup.of_append_left (howned.mem_iff.mpr hmem)

/-- A device request is aborted while its admission is awaited; the admission arrives later and the
handler does not run. -/
def abortedLabels : List Label :=
  [.route .device, .hookLease 1, .abort, .hookAdmission 2, .close false, .handlerStarts true]

lemma abortedRun_isSome : (State.run {} abortedLabels).isSome := by decide

theorem acquisitions_fenced_sample : ((State.run {} abortedLabels).get abortedRun_isSome).bodyStarted = false ∧
      ((State.run {} abortedLabels).get abortedRun_isSome).releases.count 2 = 1 :=
  ⟨by decide, (acquisitions_fenced (eq_some_of_isSome abortedRun_isSome)).2.2.2 (by decide)
    (by decide) 2 (by decide)⟩

end RequestFence
