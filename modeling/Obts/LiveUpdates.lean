import Mathlib.Algebra.Group.Int.Defs
import Mathlib.Data.List.Perm.Subperm
import Obts.JsonRecords
import Obts.LabelledRuns

/-!
# Live updates of the dashboard

The controller of the dashboard's event stream with its three timers, and around it what it is used
with: the streams it made, the timers that are armed, and the session checks under way. A timer that
is armed may fire at any time, and a stream may deliver an event after it was closed.
-/
namespace LiveUpdates

open List Nat
open Bool (not_eq_false not_eq_true not_eq_true')
open Option (eq_some_of_isSome ite_none_right_eq_some some_ne_none)
open JsonRecords (Json)
open InsertionOrder (valueAt)

inductive LiveState where
  | connecting
  | live
  | reconnecting
  | unsupported
  | paused
  deriving DecidableEq

inductive RefreshScope where
  | vault
  | full
  deriving DecidableEq

inductive RefreshSource where
  | connect
  | event
  | poll
  | visibility
  deriving DecidableEq

structure RefreshRequest where
  scope : RefreshScope
  source : RefreshSource
  deriving DecidableEq

/-- What the page offers, and the steps of the backoff. -/
structure Options where
  hasEventSource : Bool
  reconnectBaseMs : Int := 5 * 1000
  reconnectMaxMs : Int := 60 * 1000

/-- Delay before the own reconnect after `step` more failures, without jitter. -/
def backoffMs (options : Options) (step : Nat) : Int :=
  min options.reconnectMaxMs (options.reconnectBaseMs * 2 ^ step)

structure Invalidation where
  account : Bool
  vaultIds : List String

def stringsOf : List Json → Option (List String)
  | [] => some []
  | .string value :: items => (stringsOf items).map (value :: ·)
  | _ :: _ => none

/-- The data is none where it is no text of JSON. -/
def parseInvalidation (data : Option Json) : Option Invalidation :=
  match data with
  | some (.record fields) =>
    match valueAt fields "account", valueAt fields "vault_ids" with
    | some (.boolean account), some (.array items) =>
      (stringsOf items).map fun vaultIds => { account, vaultIds }
    | _, _ => none
  | _ => none

inductive TimerKind where
  | reconnect
  | tick
  | hide
  deriving DecidableEq

/-- The handles that the controller keeps, and the timers that are armed. -/
structure Timers where
  reconnect : Option Nat := none
  tick : Option Nat := none
  hide : Option Nat := none
  armed : List (Nat × TimerKind) := []
  next : Nat := 0

namespace Timers

variable (timers : Timers)

def get : TimerKind → Option Nat
  | .reconnect => timers.reconnect
  | .tick => timers.tick
  | .hide => timers.hide

def set (handle : Option Nat) : TimerKind → Timers
  | .reconnect => { timers with reconnect := handle }
  | .tick => { timers with tick := handle }
  | .hide => { timers with hide := handle }

/-- `clearTimer`. -/
def clear (kind : TimerKind) : Timers :=
  match timers.get kind with
  | none => timers
  | some handle => { timers.set none kind with
      armed := timers.armed.filter fun timer => timer.1 ≠ handle }

/-- `setTimeout`, with the handle kept. -/
def arm (kind : TimerKind) : Timers :=
  { timers.set (some timers.next) kind with
    armed := timers.armed ++ [(timers.next, kind)]
    next := timers.next + 1 }

/-- A timer fires, and its callback forgets the handle. -/
def fire (handle : Nat) (kind : TimerKind) : Timers :=
  { timers.set none kind with armed := timers.armed.filter fun timer => timer ≠ (handle, kind) }

end Timers

/-- A stream, known by the connection that listens to it. -/
structure Stream where
  connectionId : Nat
  closed : Bool

/-- The stream that the controller keeps, and all that it made. -/
structure Streams where
  source : Option Nat := none
  connectionId : Nat := 0
  made : List Stream := []

namespace Streams

def openStream (streams : Streams) : Streams where
  source := some (streams.connectionId + 1)
  connectionId := streams.connectionId + 1
  made := streams.made ++ [⟨streams.connectionId + 1, false⟩]

/-- `closeSource`. -/
def closeSource (streams : Streams) : Streams where
  source := none
  connectionId := streams.connectionId + 1
  made := match streams.source with
    | none => streams.made
    | some source => streams.made.map fun stream =>
      if stream.connectionId = source then { stream with closed := true } else stream

end Streams

structure State where
  state : LiveState := .connecting
  started : Bool := false
  paused : Bool := false
  streams : Streams := {}
  timers : Timers := {}
  epoch : Nat := 0
  failures : Nat := 0
  subscribed : Bool := false
  lastSessionCheckAt : Option Int := none
  sessionCheckInFlight : Bool := false
  /-- The document is hidden. -/
  hidden : Bool := false
  /-- The epochs of the session checks that are not answered yet. -/
  checks : List Nat := []
  requests : List RefreshRequest := []

/-- What happens to the controller, with what the page's functions do where it calls them: the
constructor throws, the selected vault cannot be read, the session check throws. -/
inductive Label where
  | start (throws : Bool)
  | stop
  | hiddenChanges (hidden : Bool)
  | visibilityChange (throws : Bool)
  | timer (handle : Nat) (kind : TimerKind) (throws : Bool)
  | refresh (connectionId : Nat)
  | invalidate (connectionId : Nat) (data : Option Json) (selectedVaultId : Option String)
  | error (connectionId : Nat) (readyStateClosed : Bool) (now : Int) (checkThrows : Bool)
  | sessionChecked (epoch : Nat) (valid : Bool)

namespace State

variable (s : State)

def isActive : Bool := s.started && !s.paused

def emit (scope : RefreshScope) (source : RefreshSource) : State :=
  { s with requests := s.requests ++ [⟨scope, source⟩] }

def rescheduleTick : State :=
  let timers := s.timers.clear .tick
  { s with timers := if s.isActive then timers.arm .tick else timers }

def setState (next : LiveState) : State :=
  if next = s.state then s else rescheduleTick { s with state := next }

variable (options : Options)

def connect (s : State) (throws : Bool) : State :=
  if !s.isActive || s.streams.source.isSome then s
  else if !options.hasEventSource || throws then (s.setState .unsupported).rescheduleTick
  else
    let s := { s with streams := s.streams.openStream }
    let s := if s.state ≠ .reconnecting then s.setState .connecting else s
    s.rescheduleTick

def closeSource (s : State) : State := { s with streams := s.streams.closeSource }

def clearTimer (kind : TimerKind) : State := { s with timers := s.timers.clear kind }

def scheduleReconnect : State :=
  let s := s.clearTimer .reconnect
  if !s.isActive then s else { s with timers := s.timers.arm .reconnect }

def armHideTimer : State :=
  if s.timers.hide.isSome || s.paused then s else { s with timers := s.timers.arm .hide }

def start (s : State) (throws : Bool) : State :=
  if s.started then s
  else
    let s := { s with
      started := true
      epoch := s.epoch + 1
      paused := false
      failures := 0
      lastSessionCheckAt := none }
    let s := { s.setState .connecting with subscribed := true }
    let s := if s.hidden then s.armHideTimer else s
    s.connect options throws

def stop : State :=
  if !s.started then s
  else
    let s := { s with started := false, paused := false, epoch := s.epoch + 1 }
    let s := ((s.closeSource.clearTimer .reconnect).clearTimer .tick).clearTimer .hide
    { s with subscribed := false, sessionCheckInFlight := false }.setState .connecting

def pause : State :=
  if s.paused then s
  else (({ s with paused := true }.closeSource.clearTimer .reconnect).clearTimer .tick).setState .paused

def resume (s : State) (throws : Bool) : State :=
  let s := { s with paused := false, failures := 0, lastSessionCheckAt := none }
  (s.connect options throws).emit .vault .visibility

def onVisibility (s : State) (throws : Bool) : State :=
  if !s.started then s
  else if s.hidden then s.armHideTimer
  else
    let s := s.clearTimer .hide
    if s.paused then s.resume options throws else s

variable (connectionId : Nat)

def isCurrent : Bool :=
  s.isActive && s.streams.source.isSome && connectionId = s.streams.connectionId

def onRefreshEvent : State :=
  if !s.isCurrent connectionId then s
  else (({ s with failures := 0 }.clearTimer .reconnect).setState .live).emit .full .connect

/-- The scope that an invalidation asks for. Without the selected vault, it is everything. -/
def scopeOf (data : Option Json) (selectedVaultId : Option String) : Option RefreshScope :=
  match parseInvalidation data with
  | none => some .full
  | some parsed =>
    if parsed.account then some .full
    else match selectedVaultId with
      | none => some .full
      | some selected =>
        if selected ≠ "" ∧ selected ∈ parsed.vaultIds then some .vault else none

def onInvalidateEvent (data : Option Json) (selectedVaultId : Option String) : State :=
  if !s.isCurrent connectionId then s
  else match scopeOf data selectedVaultId with
    | some scope => s.emit scope .event
    | none => s

/-- The answer of a session check. -/
def done (epoch : Nat) (valid : Bool) : State :=
  if epoch ≠ s.epoch then s
  else
    let s := { s with sessionCheckInFlight := false }
    if !valid then s.stop else s

def maybeCheckSession (s : State) (now : Int) (checkThrows : Bool) : State :=
  let threshold := if 2 ≤ s.failures then backoffMs options (s.failures - 2) else 0
  if s.sessionCheckInFlight || s.lastSessionCheckAt.any fun at_ => now - at_ < threshold then s
  else
    let s := { s with lastSessionCheckAt := some now, sessionCheckInFlight := true }
    if checkThrows then s.done s.epoch true else { s with checks := s.checks ++ [s.epoch] }

def onError (s : State) (connectionId : Nat) (readyStateClosed : Bool) (now : Int)
    (checkThrows : Bool) : State :=
  if !s.isCurrent connectionId then s
  else
    let s := { s with failures := s.failures + 1 }.setState .reconnecting
    let s := s.maybeCheckSession options now checkThrows
    if readyStateClosed then s.closeSource.scheduleReconnect else s

/-- The callback of a timer. -/
def onTimer (s : State) (kind : TimerKind) (throws : Bool) : State :=
  match kind with
  | .reconnect => s.connect options throws
  | .tick => (if s.hidden then s else s.emit .vault .poll).rescheduleTick
  | .hide => if s.started && s.hidden then s.pause else s

/-- Only armed timers fire, and only streams that were made deliver events. -/
def step (s : State) : Label → Option State
  | .start throws => some (s.start options throws)
  | .stop => some s.stop
  | .hiddenChanges hidden => some { s with hidden }
  | .visibilityChange throws =>
    some (if s.subscribed then s.onVisibility options throws else s)
  | .timer handle kind throws =>
    if (handle, kind) ∈ s.timers.armed then
      some ({ s with timers := s.timers.fire handle kind }.onTimer options kind throws)
    else none
  | .refresh connectionId =>
    if connectionId ∈ s.streams.made.map Stream.connectionId then some (s.onRefreshEvent connectionId)
    else none
  | .invalidate connectionId data selectedVaultId =>
    if connectionId ∈ s.streams.made.map Stream.connectionId then
      some (s.onInvalidateEvent connectionId data selectedVaultId)
    else none
  | .error connectionId readyStateClosed now checkThrows =>
    if connectionId ∈ s.streams.made.map Stream.connectionId then
      some (s.onError options connectionId readyStateClosed now checkThrows)
    else none
  | .sessionChecked epoch valid =>
    if epoch ∈ s.checks then some ({ s with checks := s.checks.erase epoch }.done epoch valid) else none

def run (options : Options) (s : State) : List Label → Option State
  | [] => some s
  | label :: labels => (s.step options label).bind fun s => s.run options labels

end State

variable {kind : TimerKind} {handle : Nat} {s : State}

namespace Timers

/-- The armed timers are those whose handles the controller keeps. -/
structure Valid (timers : Timers) : Prop where
  armed : ∀ handle kind, (handle, kind) ∈ timers.armed ↔ timers.get kind = some handle
  fresh : ∀ handle kind, timers.get kind = some handle → handle < timers.next
  distinct : ∀ handle kind kind', timers.get kind = some handle → timers.get kind' = some handle → kind = kind'

variable {timers : Timers}

@[simp] lemma get_set (timers : Timers) (handle : Option Nat) (kind kind' : TimerKind) :
    (timers.set handle kind).get kind' = if kind' = kind then handle else timers.get kind' := by
  cases kind <;> cases kind' <;> rfl

@[simp] lemma get_clear (timers : Timers) (kind kind' : TimerKind) :
    (timers.clear kind).get kind' = if kind' = kind then none else timers.get kind' := by
  unfold clear
  split
  · rename_i hnone
    split
    · rename_i hkind
      rw [hkind, hnone]
    · rfl
  · exact get_set timers none kind kind'

@[simp] lemma get_arm (timers : Timers) (kind kind' : TimerKind) :
    (timers.arm kind).get kind' = if kind' = kind then some timers.next else timers.get kind' :=
  get_set timers (some timers.next) kind kind'

@[simp] lemma get_fire (timers : Timers) (handle : Nat) (kind kind' : TimerKind) :
    (timers.fire handle kind).get kind' = if kind' = kind then none else timers.get kind' :=
  get_set timers none kind kind'

/-- A timer is taken off the armed ones and forgotten. -/
lemma Valid.remove (h : timers.Valid) (hkept : timers.get kind = some handle) {armed : List (Nat × TimerKind)}
    (harmed : ∀ other kind', (other, kind') ∈ armed ↔ (other, kind') ∈ timers.armed ∧ kind' ≠ kind) :
    Valid { timers.set none kind with armed } := by
  have hget : ∀ kind', get { timers.set none kind with armed } kind'
      = if kind' = kind then none else timers.get kind' := get_set timers none kind
  have hnext : (timers.set none kind).next = timers.next := by
    cases kind <;> rfl
  refine ⟨fun other kind' => ?_, fun other kind' hother => ?_, fun other kind' kind'' hother hother' => ?_⟩
  · rw [hget]
    refine (harmed other kind').trans ?_
    by_cases hsame : kind' = kind
    · simp [hsame]
    · rw [if_neg hsame, h.armed]
      exact and_iff_left hsame
  · rw [hget] at hother
    obtain ⟨-, hother⟩ := Option.ite_none_left_eq_some.mp hother
    exact hnext ▸ h.fresh other kind' hother
  · rw [hget] at hother hother'
    obtain ⟨-, hother⟩ := Option.ite_none_left_eq_some.mp hother
    split at hother'
    · cases hother'
    · exact h.distinct other kind' kind'' hother hother'

lemma Valid.clear (h : timers.Valid) (kind : TimerKind) : (timers.clear kind).Valid := by
  unfold Timers.clear
  split
  · exact h
  rename_i handle hkept
  refine h.remove hkept fun other kind' => ?_
  rw [mem_filter, decide_eq_true_eq]
  refine and_congr_right fun hmem => not_congr ⟨fun heq => ?_, fun heq => ?_⟩
  · exact h.distinct handle kind' kind (heq ▸ (h.armed other kind').mp hmem) hkept
  · exact Option.some.inj (((h.armed other kind').mp hmem).symm.trans (heq ▸ hkept))

lemma Valid.fire (h : timers.Valid) (harmed : (handle, kind) ∈ timers.armed) : (timers.fire handle kind).Valid := by
  have hkept := (h.armed handle kind).mp harmed
  refine h.remove hkept fun other kind' => ?_
  rw [mem_filter, decide_eq_true_eq]
  refine and_congr_right fun hmem => not_congr ⟨fun heq => (Prod.mk.inj heq).2, fun heq => ?_⟩
  rw [heq, Option.some.inj (((h.armed other kind').mp hmem).symm.trans (heq ▸ hkept))]

/-- A timer is armed only where none of its kind is, so that none is lost sight of. -/
lemma Valid.arm (h : timers.Valid) (hnone : timers.get kind = none) : (timers.arm kind).Valid := by
  refine ⟨fun other kind' => ?_, fun other kind' hother => ?_, fun other kind' kind'' hother hother' => ?_⟩
  · rw [get_arm]
    change (other, kind') ∈ timers.armed ++ [(timers.next, kind)] ↔ _
    rw [mem_append, mem_singleton, h.armed, Prod.mk.injEq]
    by_cases hsame : kind' = kind
    · rw [hsame, hnone, if_pos rfl]
      simp [eq_comm]
    · simp [hsame]
  · rw [get_arm] at hother
    change other < timers.next + 1
    split at hother
    · have := Option.some.inj hother
      omega
    · have := h.fresh other kind' hother
      omega
  · rw [get_arm] at hother hother'
    split at hother <;> split at hother'
    · rename_i hkind hkind'
      rw [hkind, hkind']
    · have := h.fresh other kind'' hother'
      have := Option.some.inj hother
      omega
    · have := h.fresh other kind' hother
      have := Option.some.inj hother'
      omega
    · exact h.distinct other kind' kind'' hother hother'

end Timers

namespace Streams

/-- The only stream that may be open is the one that the controller keeps. -/
structure Valid (streams : Streams) : Prop where
  source : ∀ source, streams.source = some source → source = streams.connectionId ∧ ⟨source, false⟩ ∈ streams.made
  opened : ∀ stream ∈ streams.made, stream.closed = false → streams.source = some stream.connectionId
  bounded : ∀ stream ∈ streams.made, stream.connectionId ≤ streams.connectionId
  once : (streams.made.map Stream.connectionId).Nodup

variable {streams : Streams}

lemma Valid.openStream (h : streams.Valid) (hnone : streams.source = none) :
    streams.openStream.Valid := by
  refine ⟨fun source hsrc => ?_, fun stream hmem hopen => ?_, fun stream hmem => ?_, ?_⟩
  · cases hsrc
    exact ⟨rfl, mem_append_right _ mem_cons_self⟩
  · rcases mem_append.mp hmem with hmem | hmem
    · have hsrc := h.opened stream hmem hopen
      rw [hnone] at hsrc
      cases hsrc
    · rw [mem_singleton.mp hmem]
      rfl
  · change stream.connectionId ≤ streams.connectionId + 1
    rcases mem_append.mp hmem with hmem | hmem
    · exact le_succ_of_le (h.bounded stream hmem)
    · rw [mem_singleton.mp hmem]
  · refine InsertionOrder.nodup_map_concat h.once fun ha => ?_
    obtain ⟨stream, hmem, heq⟩ := mem_map.mp ha
    exact absurd (heq ▸ h.bounded stream hmem) (not_succ_le_self _)

lemma Valid.closeSource (h : streams.Valid) : streams.closeSource.Valid := by
  unfold Streams.closeSource
  refine ⟨fun source hsrc => (by cases hsrc), fun stream hmem hopen => ?_, fun stream hmem => ?_, ?_⟩
  · cases hsrc : streams.source with
    | none =>
      simp only [hsrc] at hmem
      have hopn := h.opened stream hmem hopen
      rw [hsrc] at hopn
      cases hopn
    | some source =>
      simp only [hsrc] at hmem
      obtain ⟨old, hold, rfl⟩ := mem_map.mp hmem
      split at hopen
      · cases hopen
      rename_i hother
      have hopn := h.opened old hold hopen
      rw [hsrc] at hopn
      exact absurd (Option.some.inj hopn).symm hother
  · cases hsrc : streams.source with
    | none =>
      simp only [hsrc] at hmem
      exact le_succ_of_le (h.bounded stream hmem)
    | some source =>
      simp only [hsrc] at hmem
      obtain ⟨old, hold, rfl⟩ := mem_map.mp hmem
      have hbound := h.bounded old hold
      split
      · exact le_succ_of_le hbound
      · exact le_succ_of_le hbound
  · cases hsrc : streams.source with
    | none => simpa only [hsrc] using h.once
    | some source =>
      exact (congrArg List.Nodup (InsertionOrder.map_ite_eq (by simp))).mpr h.once

/-- At most one stream is open. -/
lemma Valid.open_le_one (h : streams.Valid) : (streams.made.filter fun stream => !stream.closed).length ≤ 1 := by
  have hsubs : (streams.made.filter fun stream => !stream.closed).map Stream.connectionId
      ⊆ streams.source.toList := fun connectionId hmem => by
    obtain ⟨stream, hstr, rfl⟩ := mem_map.mp hmem
    obtain ⟨hmade, hopen⟩ := mem_filter.mp hstr
    rw [not_eq_true'] at hopen
    rw [h.opened stream hmade hopen]
    exact mem_cons_self
  have hnodup := h.once.sublist ((filter_sublist (p := fun stream => !stream.closed)).map Stream.connectionId)
  have hlen := (hnodup.subperm hsubs).length_le
  rw [length_map] at hlen
  exact hlen.trans (by cases streams.source <;> simp)

end Streams

/-- What holds apart from the tick timer. A stopped or paused controller has no stream and no
reconnect timer, an active one has a stream, or a reconnect timer, or no support for streams. -/
structure Settled (s : State) : Prop where
  timers : s.timers.Valid
  streams : s.streams.Valid
  idle : s.isActive = false → s.streams.source = none ∧ s.timers.get .reconnect = none
  waiting : s.isActive = true → s.streams.source = none → s.state ≠ .unsupported → s.timers.get .reconnect ≠ none
  live : s.state = .live → s.streams.source ≠ none

/-- The tick timer is armed exactly while the controller is active. -/
structure Sound (s : State) : Prop where
  settled : Settled s
  tick : s.timers.get .tick = none ↔ s.isActive = false

section Modes
variable {options : Options} {s s' : State} {next : LiveState} {label : Label}

section
variable (s : State)

@[simp] lemma rescheduleTick_isActive : s.rescheduleTick.isActive = s.isActive := rfl

@[simp] lemma rescheduleTick_requests : s.rescheduleTick.requests = s.requests := rfl

lemma rescheduleTick_get (hkind : kind ≠ .tick) : s.rescheduleTick.timers.get kind = s.timers.get kind := by
  simp only [State.rescheduleTick]
  split
  · rw [Timers.get_arm, if_neg hkind, Timers.get_clear, if_neg hkind]
  · rw [Timers.get_clear, if_neg hkind]

@[simp] lemma setState_isActive (next : LiveState) : (s.setState next).isActive = s.isActive := by
  unfold State.setState
  split
  · rfl
  · rfl

@[simp] lemma setState_streams (next : LiveState) : (s.setState next).streams = s.streams := by
  unfold State.setState
  split
  · rfl
  · rfl

@[simp] lemma setState_requests (next : LiveState) : (s.setState next).requests = s.requests := by
  unfold State.setState
  split
  · rfl
  · rfl

@[simp] lemma setState_state (next : LiveState) : (s.setState next).state = next := by
  unfold State.setState
  split
  · rename_i hsame
    exact hsame.symm
  · rfl

end

lemma rescheduleTick_valid (h : s.timers.Valid) : s.rescheduleTick.timers.Valid := by
  simp only [State.rescheduleTick]
  split
  · exact (h.clear .tick).arm (by rw [Timers.get_clear, if_pos rfl])
  · exact h.clear .tick

lemma setState_valid (h : s.timers.Valid) (next : LiveState) : (s.setState next).timers.Valid := by
  unfold State.setState
  split
  · exact h
  · exact rescheduleTick_valid h

/-- Rescheduling the tick makes up for a tick that is missing or should not be there. -/
lemma Settled.rescheduleTick (h : Settled s) : Sound s.rescheduleTick := by
  have hget := rescheduleTick_get s (TimerKind.noConfusion : TimerKind.reconnect ≠ .tick)
  refine ⟨⟨rescheduleTick_valid h.timers, h.streams, fun hidle => ?_, fun hact hnone hstate => ?_, h.live⟩, ?_⟩
  · rw [hget]
    exact h.idle hidle
  · rw [hget]
    exact h.waiting hact hnone hstate
  rw [rescheduleTick_isActive]
  simp only [State.rescheduleTick]
  split
  · rename_i hact
    simp [hact]
  · rename_i hidle
    simp [hidle]

lemma Settled.setState (h : Settled { s with state := next }) : Settled (s.setState next) := by
  unfold State.setState
  split
  · rename_i hsame
    subst hsame
    exact h
  · exact h.rescheduleTick.settled

lemma Sound.setState (h : Sound s) (hnext : Settled { s with state := next }) :
    Sound (s.setState next) := by
  unfold State.setState
  split
  · exact h
  · exact hnext.rescheduleTick

lemma connect_requests (s : State) (throws : Bool) : (s.connect options throws).requests = s.requests := by
  unfold State.connect
  split
  · rfl
  split
  · rw [rescheduleTick_requests, setState_requests]
  rw [rescheduleTick_requests]
  split
  · rw [setState_requests]
  · rfl

/-- An active controller without a stream, whose tick need not be armed yet. -/
structure Ready (s : State) : Prop where
  timers : s.timers.Valid
  streams : s.streams.Valid
  active : s.isActive = true
  closed : s.streams.source = none

lemma Ready.setState (h : Ready s) (next : LiveState) : Ready (s.setState next) := by
  refine ⟨setState_valid h.timers next, ?_, ?_, ?_⟩
  · rw [setState_streams]
    exact h.streams
  · rw [setState_isActive]
    exact h.active
  · rw [setState_streams]
    exact h.closed

/-- It gets a stream, or finds that there is no support. -/
lemma Ready.connect (h : Ready s) (throws : Bool) : Sound (s.connect options throws) := by
  obtain ⟨htim, hstrs, hact, hnone⟩ := h
  have hopen := hstrs.openStream hnone
  unfold State.connect
  rw [hact, hnone]
  split
  · rename_i hcond
    cases hcond
  split
  · refine Settled.rescheduleTick ⟨setState_valid htim _, ?_, fun hidle => ?_, fun _ _ hstate => ?_,
      fun hlive => ?_⟩
    · rw [setState_streams]
      exact hstrs
    · rw [setState_isActive, hact] at hidle
      cases hidle
    · exact absurd (setState_state s .unsupported) hstate
    · rw [setState_state] at hlive
      cases hlive
  · refine Settled.rescheduleTick ?_
    split
    · refine ⟨setState_valid (s := { s with streams := s.streams.openStream }) htim _, ?_,
        fun hidle => ?_, fun _ hnone' => ?_, fun hlive => ?_⟩
      · rw [setState_streams]
        exact hopen
      · rw [setState_isActive] at hidle
        exact absurd (hidle.symm.trans hact) Bool.false_ne_true
      · rw [setState_streams] at hnone'
        cases hnone'
      · rw [setState_state] at hlive
        cases hlive
    · refine ⟨htim, hopen, fun hidle => ?_, fun _ hnone' => ?_, fun _ hnone' => ?_⟩
      · exact absurd (hidle.symm.trans hact) Bool.false_ne_true
      · cases hnone'
      · cases hnone'

/-- A controller that connects while it has a stream stays as it is. -/
lemma Sound.connect (h : Sound s) (throws : Bool) : Sound (s.connect options throws) := by
  by_cases hact : s.isActive = true
  · cases hsrc : s.streams.source with
    | none => exact Ready.connect ⟨h.settled.timers, h.settled.streams, hact, hsrc⟩ throws
    | some source =>
      unfold State.connect
      rw [hsrc]
      split
      · exact h
      rename_i hcond
      rw [hact] at hcond
      exact absurd rfl hcond
  · unfold State.connect
    rw [not_eq_true] at hact
    rw [hact]
    exact h

/-- The hide timer plays no part in the modes. -/
lemma Settled.armHideTimer (h : Settled s) : Settled s.armHideTimer := by
  unfold State.armHideTimer
  split
  · exact h
  rename_i hcond
  rw [Bool.or_eq_true, not_or, not_eq_true, Option.isSome_eq_false_iff, Option.isNone_iff_eq_none] at hcond
  refine ⟨h.timers.arm hcond.1, h.streams, fun hidle => ?_, fun hact hnone hstate => ?_, h.live⟩
  · exact h.idle hidle
  · exact h.waiting hact hnone hstate

lemma Sound.armHideTimer (h : Sound s) : Sound s.armHideTimer := by
  refine ⟨h.settled.armHideTimer, ?_⟩
  unfold State.armHideTimer
  split
  · exact h.tick
  · exact h.tick

lemma armHideTimer_requests (s : State) : s.armHideTimer.requests = s.requests := by
  unfold State.armHideTimer
  split
  · rfl
  · rfl

lemma Ready.armHideTimer (h : Ready s) : Ready s.armHideTimer := by
  unfold State.armHideTimer
  split
  · exact h
  rename_i hcond
  rw [Bool.or_eq_true, not_or, not_eq_true, Option.isSome_eq_false_iff, Option.isNone_iff_eq_none] at hcond
  exact { h with timers := h.timers.arm hcond.1 }

lemma Sound.start (h : Sound s) (throws : Bool) : Sound (s.start options throws) := by
  unfold State.start
  split
  · exact h
  rename_i hstop
  rw [not_eq_true] at hstop
  have hidle := h.settled.idle (by rw [State.isActive, hstop, Bool.false_and])
  have hbegun : Ready { s with
      started := true
      epoch := s.epoch + 1
      paused := false
      failures := 0
      lastSessionCheckAt := none } :=
    ⟨h.settled.timers, h.settled.streams, rfl, hidle.1⟩
  have hconn := hbegun.setState .connecting
  have hready : Ready { State.setState { s with
      started := true
      epoch := s.epoch + 1
      paused := false
      failures := 0
      lastSessionCheckAt := none } .connecting with subscribed := true } :=
    { hconn with }
  dsimp only
  split
  · exact hready.armHideTimer.connect throws
  · exact hready.connect throws

/-- A controller that is not active and has closed everything. -/
structure Idle (s : State) : Prop where
  timers : s.timers.Valid
  streams : s.streams.Valid
  inactive : s.isActive = false
  closed : s.streams.source = none
  reconnect : s.timers.get .reconnect = none
  tick : s.timers.get .tick = none

lemma Idle.setState (h : Idle s) (hnext : next ≠ .live) : Sound (s.setState next) := by
  have hstl : Settled { s with state := next } :=
    ⟨h.timers, h.streams, fun _ => ⟨h.closed, h.reconnect⟩,
      fun hact => absurd (hact.symm.trans h.inactive) (fun heq => by cases heq),
      fun hlive => absurd hlive hnext⟩
  refine ⟨hstl.setState, ?_⟩
  unfold State.setState
  split
  · exact iff_of_true h.tick h.inactive
  · exact hstl.rescheduleTick.tick

/-- Closing the stream and clearing two timers. -/
lemma Idle.close (htim : s.timers.Valid) (hstrs : s.streams.Valid) (hinac : s.isActive = false) :
    Idle ((s.closeSource.clearTimer .reconnect).clearTimer .tick) := by
  refine ⟨(htim.clear .reconnect).clear .tick, hstrs.closeSource, hinac, rfl, ?_, ?_⟩
  · change ((s.timers.clear .reconnect).clear .tick).get .reconnect = none
    rw [Timers.get_clear, if_neg TimerKind.noConfusion, Timers.get_clear, if_pos rfl]
  · change ((s.timers.clear .reconnect).clear .tick).get .tick = none
    rw [Timers.get_clear, if_pos rfl]

lemma Idle.clearHide (h : Idle s) : Idle (s.clearTimer .hide) := by
  refine ⟨h.timers.clear .hide, h.streams, h.inactive, h.closed, ?_, ?_⟩
  · exact (Timers.get_clear _ _ _).trans ((if_neg TimerKind.noConfusion).trans h.reconnect)
  · exact (Timers.get_clear _ _ _).trans ((if_neg TimerKind.noConfusion).trans h.tick)

lemma Sound.stop (h : Sound s) : Sound s.stop := by
  unfold State.stop
  split
  · exact h
  have hcls := (Idle.close (s := { s with started := false, paused := false, epoch := s.epoch + 1 })
    h.settled.timers h.settled.streams rfl).clearHide
  have hidle : Idle { ((State.closeSource { s with
      started := false
      paused := false
      epoch := s.epoch + 1 }).clearTimer .reconnect |>.clearTimer .tick |>.clearTimer .hide) with
        subscribed := false
        sessionCheckInFlight := false } :=
    { hcls with }
  exact hidle.setState LiveState.noConfusion

lemma stop_requests (s : State) : s.stop.requests = s.requests := by
  unfold State.stop
  split
  · rfl
  · exact setState_requests _ _

lemma start_requests (s : State) (throws : Bool) : (s.start options throws).requests = s.requests := by
  unfold State.start
  split
  · rfl
  rw [connect_requests]
  split
  · rw [armHideTimer_requests]
    exact setState_requests _ _
  · exact setState_requests _ _

lemma Sound.pause (h : Sound s) : Sound s.pause := by
  unfold State.pause
  split
  · exact h
  have hidle : Idle ((State.closeSource { s with paused := true }).clearTimer .reconnect
      |>.clearTimer .tick) :=
    .close h.settled.timers h.settled.streams (Bool.and_false _)
  exact hidle.setState LiveState.noConfusion

/-- A paused controller that is started connects when it resumes. -/
lemma Sound.resume (h : Sound s) (hstrt : s.started) (hpaus : s.paused)
    (throws : Bool) : Sound (s.resume options throws) := by
  have hcls := (h.settled.idle (by rw [State.isActive, hpaus, Bool.not_true, Bool.and_false])).1
  have hready : Ready { s with paused := false, failures := 0, lastSessionCheckAt := none } :=
    ⟨h.settled.timers, h.settled.streams, by rw [State.isActive, hstrt]; rfl, hcls⟩
  have hsound : Sound (State.connect options _ throws) := hready.connect throws
  exact ⟨{ hsound.settled with }, hsound.tick⟩

lemma Sound.clearHide (h : Sound s) : Sound (s.clearTimer .hide) := by
  have hrec : (s.clearTimer .hide).timers.get .reconnect = s.timers.get .reconnect :=
    (Timers.get_clear _ _ _).trans (if_neg TimerKind.noConfusion)
  have htick : (s.clearTimer .hide).timers.get .tick = s.timers.get .tick :=
    (Timers.get_clear _ _ _).trans (if_neg TimerKind.noConfusion)
  refine ⟨⟨h.settled.timers.clear .hide, h.settled.streams, ?_, ?_, h.settled.live⟩, ?_⟩
  · rw [hrec]
    exact h.settled.idle
  · rw [hrec]
    exact h.settled.waiting
  · rw [htick]
    exact h.tick

lemma Sound.onVisibility (h : Sound s) (throws : Bool) : Sound (s.onVisibility options throws) := by
  unfold State.onVisibility
  split
  · exact h
  rename_i hstrt
  rw [not_eq_true', not_eq_false] at hstrt
  split
  · exact h.armHideTimer
  dsimp only
  split
  · rename_i hpaus
    exact h.clearHide.resume hstrt hpaus throws
  · exact h.clearHide

lemma isCurrent_active {connectionId : Nat} (h : s.isCurrent connectionId) :
    s.isActive ∧ s.streams.source ≠ none := by
  rw [State.isCurrent, Bool.and_eq_true, Bool.and_eq_true] at h
  exact ⟨h.1.1, Option.isSome_iff_ne_none.mp h.1.2⟩

lemma Sound.onRefreshEvent (h : Sound s) (connectionId : Nat) : Sound (s.onRefreshEvent connectionId) := by
  unfold State.onRefreshEvent
  split
  · exact h
  rename_i hcur
  rw [not_eq_true', not_eq_false] at hcur
  obtain ⟨hact, hsrc⟩ := isCurrent_active hcur
  have hget : ∀ kind, kind ≠ .reconnect →
      (s.timers.clear .reconnect).get kind = s.timers.get kind := fun kind hkind => by
    rw [Timers.get_clear, if_neg hkind]
  have hstl : ∀ state, Settled { s with
      failures := 0
      timers := s.timers.clear .reconnect
      state } := fun state =>
    ⟨h.settled.timers.clear .reconnect, h.settled.streams,
      fun hidle => absurd (hidle.symm.trans hact) Bool.false_ne_true,
      fun _ hnone => absurd hnone hsrc, fun _ => hsrc⟩
  have hcle : Sound { s with failures := 0, timers := s.timers.clear .reconnect } := by
    refine ⟨hstl s.state, ?_⟩
    rw [hget .tick TimerKind.noConfusion]
    exact h.tick
  have hlive := hcle.setState (hstl .live)
  exact ⟨{ hlive.settled with }, hlive.tick⟩

lemma Sound.onInvalidateEvent (h : Sound s) (connectionId : Nat) (data : Option Json)
    (selectedVaultId : Option String) : Sound (s.onInvalidateEvent connectionId data selectedVaultId) := by
  unfold State.onInvalidateEvent
  split
  · exact h
  split
  · exact ⟨{ h.settled with }, h.tick⟩
  · exact h

lemma Sound.done (h : Sound s) (epoch : Nat) (valid : Bool) : Sound (s.done epoch valid) := by
  unfold State.done
  split
  · exact h
  have hansw : Sound { s with sessionCheckInFlight := false } :=
    ⟨{ h.settled with }, h.tick⟩
  split
  · exact hansw.stop
  · exact hansw

/-- A session check that is begun changes no mode, also when it throws. -/
lemma maybeCheckSession_modes (options : Options) (s : State) (now : Int) (checkThrows : Bool) :
    let s' := s.maybeCheckSession options now checkThrows
    s'.state = s.state ∧ s'.isActive = s.isActive ∧ s'.streams = s.streams ∧ s'.timers = s.timers ∧
      s'.requests = s.requests := by
  unfold State.maybeCheckSession
  generalize (if 2 ≤ s.failures then backoffMs options (s.failures - 2) else 0) = threshold
  by_cases hskip : (s.sessionCheckInFlight || s.lastSessionCheckAt.any fun at_ => now - at_ < threshold) = true
  · simp [hskip]
  cases checkThrows with
  | true =>
    simp only [hskip, Bool.false_eq_true, if_false, if_true, State.done, ne_eq, not_true_eq_false,
      Bool.not_true, true_and, and_true]
    rfl
  | false =>
    simp only [hskip, Bool.false_eq_true, if_false, true_and, and_true]
    rfl

lemma Sound.onError (h : Sound s) (connectionId : Nat) (readyStateClosed : Bool) (now : Int)
    (checkThrows : Bool) : Sound (s.onError options connectionId readyStateClosed now checkThrows) := by
  unfold State.onError
  split
  · exact h
  rename_i hcur
  rw [not_eq_true', not_eq_false] at hcur
  obtain ⟨hact, hsrc⟩ := isCurrent_active hcur
  have hcoun : Sound { s with failures := s.failures + 1 } :=
    ⟨{ h.settled with }, h.tick⟩
  have hrec : Sound (State.setState _ .reconnecting) := hcoun.setState
    { h.settled with waiting := fun _ hnone => absurd hnone hsrc, live := fun _ => hsrc }
  have hchk := maybeCheckSession_modes options
    (State.setState { s with failures := s.failures + 1 } .reconnecting) now checkThrows
  dsimp only at hchk ⊢
  generalize State.maybeCheckSession options
    (State.setState { s with failures := s.failures + 1 } .reconnecting) now checkThrows = checked
    at hchk ⊢
  obtain ⟨hstate, hmode, hstrs, htim, -⟩ := hchk
  rw [setState_state] at hstate
  rw [setState_isActive] at hmode
  have hact' : checked.isActive = true := hmode.trans hact
  have hvalid : checked.timers.Valid := htim ▸ hrec.settled.timers
  have hstrs' : checked.streams.Valid := hstrs ▸ hrec.settled.streams
  have htick : checked.timers.get .tick ≠ none := by
    rw [htim]
    intro hnone
    have hidle := hrec.tick.mp hnone
    rw [setState_isActive] at hidle
    exact absurd (hidle.symm.trans hact) Bool.false_ne_true
  split
  · -- the stream is given up and a reconnect is scheduled
    unfold State.scheduleReconnect
    dsimp only
    have hidle : (checked.closeSource.clearTimer .reconnect).isActive = true := hact'
    rw [hidle, Bool.not_true, if_neg Bool.false_ne_true]
    have hget : ((checked.timers.clear .reconnect).arm .reconnect).get .tick ≠ none := by
      rw [Timers.get_arm, if_neg TimerKind.noConfusion, Timers.get_clear, if_neg TimerKind.noConfusion]
      exact htick
    refine ⟨⟨(hvalid.clear .reconnect).arm ?_, hstrs'.closeSource, fun hinac => ?_,
      fun _ _ _ => ?_, fun hlive => ?_⟩, ?_⟩
    · rw [Timers.get_clear, if_pos rfl]
    · exact absurd (hinac.symm.trans hact') Bool.false_ne_true
    · exact some_ne_none _
    · change checked.state = .live at hlive
      rw [hstate] at hlive
      cases hlive
    · exact iff_of_false hget fun hinac =>
        absurd (hinac.symm.trans hact') Bool.false_ne_true
  · refine ⟨⟨hvalid, hstrs', fun hinac => ?_, fun _ hnone => ?_, fun hlive => ?_⟩, ?_⟩
    · exact absurd (hinac.symm.trans hact') Bool.false_ne_true
    · rw [hstrs, setState_streams] at hnone
      exact absurd hnone hsrc
    · rw [hstate] at hlive
      cases hlive
    · exact iff_of_false htick fun hinac =>
        absurd (hinac.symm.trans hact') Bool.false_ne_true

lemma Sound.active_of_armed (h : Sound s) (hkind : kind ≠ .hide)
    (harmed : (handle, kind) ∈ s.timers.armed) : s.isActive := by
  by_contra hidle
  rw [not_eq_true] at hidle
  have hkept := (h.settled.timers.armed handle kind).mp harmed
  cases kind with
  | reconnect =>
    rw [(h.settled.idle hidle).2] at hkept
    cases hkept
  | tick =>
    rw [h.tick.mpr hidle] at hkept
    cases hkept
  | hide => exact hkind rfl

lemma Sound.onTimer (h : Sound s) (harmed : (handle, kind) ∈ s.timers.armed) (throws : Bool) :
    Sound ({ s with timers := s.timers.fire handle kind }.onTimer options kind throws) := by
  have hvalid := h.settled.timers.fire harmed
  have hget : ∀ other, other ≠ kind → (s.timers.fire handle kind).get other = s.timers.get other :=
    fun other hother => by rw [Timers.get_fire, if_neg hother]
  cases kind with
  | reconnect =>
    have hact := h.active_of_armed TimerKind.noConfusion harmed
    cases hsrc : s.streams.source with
    | none =>
      exact Ready.connect (s := { s with timers := s.timers.fire handle .reconnect })
        ⟨hvalid, h.settled.streams, hact, hsrc⟩ throws
    | some source =>
      refine Sound.connect (s := { s with timers := s.timers.fire handle .reconnect })
        ⟨⟨hvalid, h.settled.streams, fun hidle => ?_, fun _ hnone => ?_, h.settled.live⟩, ?_⟩ throws
      · exact absurd (hidle.symm.trans hact) Bool.false_ne_true
      · exact absurd (hsrc.symm.trans hnone) (some_ne_none source)
      · exact h.tick
  | tick =>
    have hstl : ∀ requests, Settled { s with timers := s.timers.fire handle .tick, requests } :=
      fun requests => by
        refine ⟨hvalid, h.settled.streams, ?_, ?_, h.settled.live⟩
        · exact h.settled.idle
        · exact h.settled.waiting
    simp only [State.onTimer]
    split
    · exact (hstl s.requests).rescheduleTick
    · exact (hstl _).rescheduleTick
  | hide =>
    have hfired : Sound { s with timers := s.timers.fire handle .hide } := by
      refine ⟨⟨hvalid, h.settled.streams, ?_, ?_, h.settled.live⟩, ?_⟩
      · exact h.settled.idle
      · exact h.settled.waiting
      · exact h.tick
    simp only [State.onTimer]
    split
    · exact hfired.pause
    · exact hfired

lemma Sound.step (h : Sound s) (hstep : s.step options label = some s') : Sound s' := by
  cases label with
  | start throws =>
    cases hstep
    exact h.start throws
  | stop =>
    cases hstep
    exact h.stop
  | hiddenChanges hidden =>
    cases hstep
    exact ⟨{ h.settled with }, h.tick⟩
  | visibilityChange throws =>
    cases hstep
    split
    · exact h.onVisibility throws
    · exact h
  | timer handle kind throws =>
    obtain ⟨harmed, ⟨⟩⟩ := ite_none_right_eq_some.mp hstep
    exact h.onTimer harmed throws
  | refresh connectionId =>
    obtain ⟨-, ⟨⟩⟩ := ite_none_right_eq_some.mp hstep
    exact h.onRefreshEvent connectionId
  | invalidate connectionId data selectedVaultId =>
    obtain ⟨-, ⟨⟩⟩ := ite_none_right_eq_some.mp hstep
    exact h.onInvalidateEvent connectionId data selectedVaultId
  | error connectionId readyStateClosed now checkThrows =>
    obtain ⟨-, ⟨⟩⟩ := ite_none_right_eq_some.mp hstep
    exact h.onError connectionId readyStateClosed now checkThrows
  | sessionChecked epoch valid =>
    obtain ⟨-, ⟨⟩⟩ := ite_none_right_eq_some.mp hstep
    have hansw : Sound { s with checks := s.checks.erase epoch } :=
      ⟨{ h.settled with }, h.tick⟩
    exact hansw.done epoch valid

lemma Sound.run {labels : List Label} (h : Sound s) (hrun : s.run options labels = some s') : Sound s' :=
  LabelledRuns.inv_run hrun (fun _ => rfl) (fun _ _ _ => rfl) (·.step ·) h

lemma sound_start : Sound {} := by
  refine ⟨⟨⟨fun handle kind => ?_, fun handle kind hkept => ?_, fun handle kind kind' hkept => ?_⟩,
    ⟨fun _ hsrc => (by cases hsrc), fun _ hmem => (by cases hmem), fun _ hmem => (by cases hmem),
      nodup_nil⟩, fun _ => ⟨rfl, rfl⟩, fun hact => (by cases hact), fun hlive => (by cases hlive)⟩,
    iff_of_true rfl rfl⟩
  · cases kind <;> simp [Timers.get]
  · cases kind <;> cases hkept
  · cases kind <;> cases hkept

lemma pause_requests (s : State) : s.pause.requests = s.requests := by
  unfold State.pause
  split
  · rfl
  · exact setState_requests _ _

lemma done_requests (s : State) (epoch : Nat) (valid : Bool) : (s.done epoch valid).requests = s.requests := by
  unfold State.done
  split
  · rfl
  split
  · exact stop_requests _
  · rfl

lemma not_isCurrent (hidle : s.isActive = false) (connectionId : Nat) : s.isCurrent connectionId = false := by
  rw [State.isCurrent, hidle, Bool.false_and, Bool.false_and]

lemma connect_isActive (s : State) (throws : Bool) : (s.connect options throws).isActive = s.isActive := by
  unfold State.connect
  split
  · rfl
  split
  · rw [rescheduleTick_isActive, setState_isActive]
  dsimp only
  split
  · exact setState_isActive _ _
  · rfl

/-- A controller that is stopped or paused asks for no refresh, except when it resumes. -/
lemma Sound.requests_of_idle (h : Sound s) (hidle : s.isActive = false) (hstep : s.step options label = some s') :
    s'.requests = s.requests ∨ s.paused ∧ s.hidden = false ∧ s'.isActive ∧
      (∃ throws, label = .visibilityChange throws) ∧ s'.requests = s.requests ++ [⟨.vault, .visibility⟩] := by
  cases label with
  | start throws =>
    cases hstep
    exact .inl (start_requests s throws)
  | stop =>
    cases hstep
    exact .inl (stop_requests s)
  | hiddenChanges hidden =>
    cases hstep
    exact .inl rfl
  | visibilityChange throws =>
    cases hstep
    split
    · unfold State.onVisibility
      split
      · exact .inl rfl
      rename_i hstrt
      rw [not_eq_true', not_eq_false] at hstrt
      split
      · exact .inl (armHideTimer_requests s)
      rename_i hvis
      rw [not_eq_true] at hvis
      dsimp only
      split
      · rename_i hpaus
        refine .inr ⟨hpaus, hvis, ?_, ⟨throws, rfl⟩, ?_⟩
        · refine (connect_isActive _ throws).trans ?_
          rw [State.isActive, show (s.clearTimer .hide).started = true from hstrt]
          rfl
        · exact congrArg (· ++ [_]) (connect_requests _ throws)
      · exact .inl rfl
    · exact .inl rfl
  | timer handle kind throws =>
    obtain ⟨harmed, ⟨⟩⟩ := ite_none_right_eq_some.mp hstep
    cases kind with
    | hide =>
      left
      simp only [State.onTimer]
      split
      · exact pause_requests _
      · rfl
    | reconnect | tick =>
      have hact := h.active_of_armed TimerKind.noConfusion harmed
      exact absurd (hidle.symm.trans hact) Bool.false_ne_true
  | refresh connectionId =>
    obtain ⟨-, ⟨⟩⟩ := ite_none_right_eq_some.mp hstep
    rw [State.onRefreshEvent, not_isCurrent hidle]
    exact .inl rfl
  | invalidate connectionId data selectedVaultId =>
    obtain ⟨-, ⟨⟩⟩ := ite_none_right_eq_some.mp hstep
    rw [State.onInvalidateEvent, not_isCurrent hidle]
    exact .inl rfl
  | error connectionId readyStateClosed now checkThrows =>
    obtain ⟨-, ⟨⟩⟩ := ite_none_right_eq_some.mp hstep
    rw [State.onError, not_isCurrent hidle]
    exact .inl rfl
  | sessionChecked epoch valid =>
    obtain ⟨-, ⟨⟩⟩ := ite_none_right_eq_some.mp hstep
    exact .inl (done_requests _ epoch valid)

end Modes

/-- A timer of the kind is armed. -/
def State.IsArmed (s : State) (kind : TimerKind) : Prop :=
  ∃ handle, (handle, kind) ∈ s.timers.armed

def State.openStreams (s : State) : List Stream :=
  s.streams.made.filter fun stream => !stream.closed

lemma isArmed_iff (h : s.timers.Valid) (kind : TimerKind) : s.IsArmed kind ↔ s.timers.get kind ≠ none := by
  constructor
  · rintro ⟨handle, harmed⟩ hnone
    rw [(h.armed handle kind).mp harmed] at hnone
    cases hnone
  intro hkept
  obtain ⟨handle, hget⟩ := Option.ne_none_iff_exists'.mp hkept
  exact ⟨handle, (h.armed handle kind).mpr hget⟩

lemma openStreams_eq_nil_iff (h : s.streams.Valid) : s.openStreams = [] ↔ s.streams.source = none := by
  constructor
  · intro hnil
    by_contra hsrc
    obtain ⟨source, hsome⟩ := Option.ne_none_iff_exists'.mp hsrc
    have hmem : (⟨source, false⟩ : Stream) ∈ s.openStreams :=
      mem_filter.mpr ⟨(h.source source hsome).2, rfl⟩
    rw [hnil] at hmem
    cases hmem
  · intro hnone
    refine filter_eq_nil_iff.mpr fun stream hmem hopen => ?_
    rw [not_eq_true'] at hopen
    have hsrc := h.opened stream hmem hopen
    rw [hnone] at hsrc
    cases hsrc

/-- At most one stream is open. A stopped or paused controller has none, and neither a reconnect nor
a tick timer, and asks for no refresh but for the one with which it resumes. An active one has its
tick armed, and a reconnect where no stream is open, unless streams are unsupported. The live state
has an open stream. -/
theorem controller_keeps_modes (options : Options) {labels : List Label} {s : State}
    (hrun : State.run options {} labels = some s) : s.openStreams.length ≤ 1 ∧
    (s.isActive = false → s.openStreams = [] ∧ ¬ s.IsArmed .reconnect ∧ ¬ s.IsArmed .tick ∧
      ∀ label s', s.step options label = some s' → s'.requests = s.requests ∨
        s.paused = true ∧ s.hidden = false ∧ s'.isActive = true ∧ (∃ throws, label = .visibilityChange throws) ∧
          s'.requests = s.requests ++ [⟨.vault, .visibility⟩]) ∧ (s.isActive = true → s.IsArmed .tick ∧
      (s.openStreams = [] → s.state ≠ .unsupported → s.IsArmed .reconnect)) ∧
    (s.state = .live → s.openStreams ≠ []) := by
  have h := sound_start.run hrun
  have harmed := isArmed_iff h.settled.timers
  have hopen := openStreams_eq_nil_iff h.settled.streams
  refine ⟨h.settled.streams.open_le_one, fun hidle => ?_, fun hact => ?_, fun hlive => ?_⟩
  · obtain ⟨hnone, hrec⟩ := h.settled.idle hidle
    refine ⟨hopen.mpr hnone, fun htimer => (harmed _).mp htimer hrec,
      fun htimer => (harmed _).mp htimer (h.tick.mpr hidle), fun label s' hstep => ?_⟩
    exact h.requests_of_idle hidle hstep
  · refine ⟨(harmed .tick).mpr fun hnone => ?_, fun hcls hstate => ?_⟩
    · exact absurd ((h.tick.mp hnone).symm.trans hact) Bool.false_ne_true
    · exact (harmed .reconnect).mpr (h.settled.waiting hact (hopen.mp hcls) hstate)
  · exact fun hcls => h.settled.live hlive (hopen.mp hcls)

def sampleOptions : Options where
  hasEventSource := true

/-- The page is hidden until the stream is paused, and is shown again. -/
def pausedLabels : List Label :=
  [.start false, .hiddenChanges true, .visibilityChange false, .timer 1 .hide false, .hiddenChanges false]

lemma pausedRun_isSome : (State.run sampleOptions {} pausedLabels).isSome := by decide

lemma resumeStep_isSome : (((State.run sampleOptions {} pausedLabels).get pausedRun_isSome).step
    sampleOptions (.visibilityChange false)).isSome := by
  decide

/-- A paused controller asks for a refresh when the page is shown again. -/
theorem paused_controller_refreshes :
    ¬ ∀ (options : Options) (labels : List Label) (s : State), State.run options {} labels = some s →
      s.started = false ∨ s.paused = true →
        ∀ label s', s.step options label = some s' → s'.requests = s.requests := by
  intro h
  have hclaim := h sampleOptions pausedLabels _ (eq_some_of_isSome pausedRun_isSome)
    (by decide) (.visibilityChange false) _ (eq_some_of_isSome resumeStep_isSome)
  have hreq : ((((State.run sampleOptions {} pausedLabels).get pausedRun_isSome).step
      sampleOptions (.visibilityChange false)).get resumeStep_isSome).requests
      = [⟨.vault, .visibility⟩] := by
    decide
  have hnone : ((State.run sampleOptions {} pausedLabels).get pausedRun_isSome).requests = [] := by
    decide
  cases hclaim

theorem controller_keeps_modes_sample :
    ((State.run sampleOptions {} pausedLabels).get pausedRun_isSome).openStreams = [] :=
  ((controller_keeps_modes sampleOptions (eq_some_of_isSome pausedRun_isSome)).2.1 (by decide)).1

end LiveUpdates
