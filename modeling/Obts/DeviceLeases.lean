import Mathlib.Logic.Function.Basic
import Obts.InsertionOrder

/-!
# Device leases

The barrier that permanent device removal waits on. Barriers are objects that the map creates
on demand and drops when idle, while a lease keeps the object it was counted on; so objects have
an identity here and the map from devices to objects is separate from the objects. A lease is
granted when it is registered: `acquireDeviceLease` registers one, reads the durable state and
releases it again if the device may not work.

Every synchronous stretch of the code is one step, and a promise is resolved by the step that
calls its resolver. The main theorem is about any sequence of steps.
-/
namespace DeviceLeases

open InsertionOrder List Option

/-- A vault and one of its devices; the source joins the two by a character no identifier has. -/
structure DeviceKey where
  (vaultId deviceId : String)
  deriving DecidableEq

/-- `active` counts unreleased leases; `idle` are the drains that wait for it to reach zero. -/
structure DeviceBarrier where
  active : Nat
  closing : Bool
  idle : List Nat

def DeviceBarrier.fresh : DeviceBarrier := ⟨0, false, []⟩

/-- A lease that was granted and not released yet, with the object it is counted on. -/
structure Lease where
  id : Nat
  key : DeviceKey
  barrier : Nat
  deriving DecidableEq

/-- A drain whose promise is pending. -/
structure Drain where
  id : Nat
  key : DeviceKey
  barrier : Nat

structure Coordinator where
  barriers : Nat → DeviceBarrier
  nextBarrier : Nat
  deviceBarriers : List (DeviceKey × Nat)
  leases : List Lease
  nextLease : Nat
  drains : List Drain
  nextDrain : Nat

def Coordinator.start : Coordinator where
  barriers _ := .fresh
  nextBarrier := 0
  deviceBarriers := []
  leases := []
  nextLease := 0
  drains := []
  nextDrain := 0

inductive Output where
  | granted (lease : Lease)
  | refused (key : DeviceKey)
  | drained (key : DeviceKey) (resolved : Bool)

namespace Coordinator

variable (s : Coordinator)

def setBarrier (o : Nat) (b : DeviceBarrier) : Coordinator :=
  { s with barriers := Function.update s.barriers o b }

variable (key : DeviceKey)

/-- The private `deviceBarrier`: the device's object, created when the map has none. -/
def deviceBarrier : Coordinator × Nat :=
  match valueAt s.deviceBarriers key with
  | some o => (s, o)
  | none =>
    ({ s with
      barriers := Function.update s.barriers s.nextBarrier .fresh
      deviceBarriers := set s.deviceBarriers key s.nextBarrier
      nextBarrier := s.nextBarrier + 1 }, s.nextBarrier)

def closeDeviceBarrier : Coordinator :=
  let (s, o) := s.deviceBarrier key
  s.setBarrier o { s.barriers o with closing := true }

/-- Reopens the object and drops it from the map when it is idle. -/
def reopen : Coordinator :=
  match valueAt s.deviceBarriers key with
  | none => s
  | some o =>
    let s := s.setBarrier o { s.barriers o with closing := false }
    if (s.barriers o).active = 0 then
      { s with deviceBarriers := delete s.deviceBarriers key }
    else s

def releaseDeviceBarrier : Coordinator := s.reopen key

def activeDeviceLeaseCount : Nat :=
  match valueAt s.deviceBarriers key with
  | some o => (s.barriers o).active
  | none => 0

def isDeviceRemoving : Bool :=
  match valueAt s.deviceBarriers key with
  | some o => (s.barriers o).closing
  | none => false

def tryAcquireDeviceLease : Coordinator × List Output :=
  let (s, o) := s.deviceBarrier key
  let b := s.barriers o
  if b.closing then (s, [.refused key])
  else
    let lease : Lease := ⟨s.nextLease, key, o⟩
    ({ s.setBarrier o { b with active := b.active + 1 } with
      leases := s.leases ++ [lease]
      nextLease := s.nextLease + 1 }, [.granted lease])

/-- Releasing a lease; a second release of the same lease does nothing. -/
def release (id : Nat) : Coordinator × List Output :=
  match s.leases.find? (·.id = id) with
  | none => (s, [])
  | some lease =>
    let b := s.barriers lease.barrier
    let active := b.active - 1
    let leases := s.leases.filter (·.id ≠ id)
    if active = 0 then
      let woken := s.drains.filter (·.id ∈ b.idle)
      let s := { s.setBarrier lease.barrier { b with active, idle := [] } with
        leases
        drains := s.drains.filter (·.id ∉ b.idle) }
      let outputs := woken.map fun drain => .drained drain.key true
      if !b.closing && valueAt s.deviceBarriers lease.key = some lease.barrier then
        ({ s with deviceBarriers := delete s.deviceBarriers lease.key }, outputs)
      else (s, outputs)
    else ({ s.setBarrier lease.barrier { b with active } with leases }, [])

/-- The rest of `acquireDeviceLease` after the durable state was read. -/
def settleAcquire (id : Nat) (allowed : Bool) : Coordinator × List Output :=
  if allowed then (s, []) else s.release id

/-- `drainDeviceLeases` until it returns or waits. -/
def drainDeviceLeases : Coordinator × List Output :=
  match valueAt s.deviceBarriers key with
  | none => (s, [.drained key true])
  | some o =>
    let b := s.barriers o
    if b.active = 0 then (s, [.drained key true])
    else
      ({ s.setBarrier o { b with idle := b.idle ++ [s.nextDrain] } with
        drains := s.drains ++ [⟨s.nextDrain, key, o⟩]
        nextDrain := s.nextDrain + 1 }, [])

/-- The timer of a waiting drain fires. -/
def timeout (id : Nat) : Coordinator × List Output :=
  match s.drains.find? (·.id = id) with
  | none => (s, [])
  | some drain =>
    let b := s.barriers drain.barrier
    ({ s.setBarrier drain.barrier { b with idle := b.idle.filter (· ≠ id) } with
      drains := s.drains.filter (·.id ≠ id) }, [.drained drain.key false])

/-- Every barrier of the vault is reopened, and the idle ones are dropped. -/
def releaseDeviceBarriersForVault (vaultId : String) : Coordinator :=
  ((s.deviceBarriers.map Prod.fst).filter (·.vaultId = vaultId)).foldl reopen s

end Coordinator

inductive Label where
  | tryAcquireDeviceLease (key : DeviceKey)
  | settleAcquire (lease : Nat) (allowed : Bool)
  | release (lease : Nat)
  | closeDeviceBarrier (key : DeviceKey)
  | releaseDeviceBarrier (key : DeviceKey)
  | releaseDeviceBarriersForVault (vaultId : String)
  | drainDeviceLeases (key : DeviceKey)
  | timeout (drain : Nat)

namespace Coordinator

variable (s : Coordinator)

def step : Label → Coordinator × List Output
  | .tryAcquireDeviceLease key => s.tryAcquireDeviceLease key
  | .settleAcquire lease allowed => s.settleAcquire lease allowed
  | .release lease => s.release lease
  | .closeDeviceBarrier key => (s.closeDeviceBarrier key, [])
  | .releaseDeviceBarrier key => (s.releaseDeviceBarrier key, [])
  | .releaseDeviceBarriersForVault vaultId => (s.releaseDeviceBarriersForVault vaultId, [])
  | .drainDeviceLeases key => s.drainDeviceLeases key
  | .timeout drain => s.timeout drain

def run (labels : List Label) : Coordinator :=
  labels.foldl (fun s label => (s.step label).1) s

/-- The granted and not yet released leases of a device. -/
def leasesOf (key : DeviceKey) : List Lease := s.leases.filter (·.key = key)

/-- An object that the map, an unreleased lease or a waiting drain of the device refers to. -/
def Live (key : DeviceKey) (o : Nat) : Prop :=
  valueAt s.deviceBarriers key = some o ∨ (∃ lease ∈ s.leases, lease.key = key ∧ lease.barrier = o) ∨
    ∃ drain ∈ s.drains, drain.key = key ∧ drain.barrier = o

structure Inv (s : Coordinator) : Prop where
  counted : ∀ key o, valueAt s.deviceBarriers key = some o →
    o < s.nextBarrier ∧ (s.barriers o).active = (s.leasesOf key).length
  injective : ∀ key key' o, valueAt s.deviceBarriers key = some o →
    valueAt s.deviceBarriers key' = some o → key = key'
  leases : ∀ lease ∈ s.leases, valueAt s.deviceBarriers lease.key = some lease.barrier
  leaseIds : (s.leases.map (·.id)).Nodup ∧ ∀ lease ∈ s.leases, lease.id < s.nextLease
  drains : ∀ drain ∈ s.drains, valueAt s.deviceBarriers drain.key = some drain.barrier ∧
    drain.id ∈ (s.barriers drain.barrier).idle ∧ (s.leasesOf drain.key) ≠ []
  drainIds : (s.drains.map (·.id)).Nodup ∧ ∀ drain ∈ s.drains, drain.id < s.nextDrain
  idle : ∀ key o, valueAt s.deviceBarriers key = some o → ∀ id ∈ (s.barriers o).idle,
    ∃ drain ∈ s.drains, drain.id = id ∧ drain.barrier = o

lemma inv_start : Inv start where
  counted _ _ h := by cases h
  injective _ _ _ h := by cases h
  leases _ h := by cases h
  leaseIds := ⟨nodup_nil, by simp [start]⟩
  drains _ h := by cases h
  drainIds := ⟨nodup_nil, by simp [start]⟩
  idle _ _ h := by cases h

variable {s : Coordinator} {key : DeviceKey} {lease : Lease} {label : Label}

/-- A device without an object has no lease. -/
lemma Inv.leasesOf_of_unmapped (h : Inv s) (hkey : valueAt s.deviceBarriers key = none) : s.leasesOf key = [] := by
  refine filter_eq_nil_iff.mpr fun lease hmem => ?_
  have hmap := h.leases lease hmem
  simp only [decide_eq_true_eq]
  rintro rfl
  rw [hkey] at hmap
  cases hmap

lemma mem_leasesOf : lease ∈ s.leasesOf key ↔ lease ∈ s.leases ∧ lease.key = key := by
  simp [leasesOf]

lemma deviceBarrier_mapped (key : DeviceKey) :
    valueAt (s.deviceBarrier key).1.deviceBarriers key = some (s.deviceBarrier key).2 := by
  unfold deviceBarrier
  split
  · rename_i o ho
    exact ho
  · simp

lemma inv_deviceBarrier (h : Inv s) (key : DeviceKey) : Inv (s.deviceBarrier key).1 := by
  unfold deviceBarrier
  split
  · exact h
  rename_i hnone
  have hlook : ∀ k o, valueAt (set s.deviceBarriers key s.nextBarrier) k = some o →
      (k = key ∧ o = s.nextBarrier) ∨ (k ≠ key ∧ valueAt s.deviceBarriers k = some o) := by
    intro k o hk
    by_cases hkey : k = key
    · subst hkey
      rw [valueAt_set_self] at hk
      exact .inl ⟨rfl, (some.inj hk).symm⟩
    · rw [valueAt_set_of_ne _ _ hkey] at hk
      exact .inr ⟨hkey, hk⟩
  -- the objects of the map keep their state: the new one is none of them
  have hold : ∀ k o, valueAt s.deviceBarriers k = some o →
      Function.update s.barriers s.nextBarrier .fresh o = s.barriers o := by
    intro k o hk
    exact Function.update_of_ne (h.counted k o hk).1.ne _ _
  have hkept : ∀ k, k ≠ key → valueAt (set s.deviceBarriers key s.nextBarrier) k
      = valueAt s.deviceBarriers k := fun k hk => valueAt_set_of_ne _ _ hk
  constructor
  · intro k o hk
    rcases hlook k o hk with ⟨rfl, rfl⟩ | ⟨-, hk⟩
    · refine ⟨Nat.lt_succ_self _, ?_⟩
      change (Function.update s.barriers s.nextBarrier .fresh s.nextBarrier).active = (s.leasesOf k).length
      rw [Function.update_self, h.leasesOf_of_unmapped hnone]
      rfl
    · obtain ⟨hlt, hact⟩ := h.counted k o hk
      refine ⟨Nat.lt_succ_of_lt hlt, ?_⟩
      change (Function.update s.barriers s.nextBarrier .fresh o).active = (s.leasesOf k).length
      rw [hold k o hk, hact]
  · intro k k' o hk hk'
    rcases hlook k o hk with ⟨rfl, rfl⟩ | ⟨-, hmap⟩
    · rcases hlook k' _ hk' with ⟨rfl, -⟩ | ⟨-, hmap'⟩
      · rfl
      · exact absurd (h.counted k' _ hmap').1 (lt_irrefl _)
    rcases hlook k' o hk' with ⟨rfl, rfl⟩ | ⟨-, hmap'⟩
    · exact absurd (h.counted k _ hmap).1 (lt_irrefl _)
    · exact h.injective k k' o hmap hmap'
  · intro lease hlease
    have hmap := h.leases lease hlease
    have hne : lease.key ≠ key := by
      intro heq
      rw [heq, hnone] at hmap
      cases hmap
    exact (hkept _ hne).trans hmap
  · exact h.leaseIds
  · intro drain hdrain
    obtain ⟨hmap, hidle, hact⟩ := h.drains drain hdrain
    have hne : drain.key ≠ key := by
      intro heq
      rw [heq, hnone] at hmap
      cases hmap
    refine ⟨(hkept _ hne).trans hmap, ?_, hact⟩
    change drain.id ∈ (Function.update s.barriers s.nextBarrier .fresh drain.barrier).idle
    rw [hold _ _ hmap]
    exact hidle
  · exact h.drainIds
  · intro k o hk id hid
    rcases hlook k o hk with ⟨rfl, rfl⟩ | ⟨-, hk⟩
    · change id ∈ (Function.update s.barriers s.nextBarrier .fresh s.nextBarrier).idle at hid
      rw [Function.update_self] at hid
      cases hid
    change id ∈ (Function.update s.barriers s.nextBarrier .fresh o).idle at hid
    rw [hold k o hk] at hid
    exact h.idle k o hk id hid

lemma inv_setClosing (h : Inv s) (o : Nat) (closing : Bool) :
    Inv (s.setBarrier o { s.barriers o with closing }) := by
  have hact : ∀ o', ((s.setBarrier o { s.barriers o with closing }).barriers o').active
      = (s.barriers o').active := by
    intro o'
    by_cases ho : o' = o
    · subst ho
      simp [setBarrier]
    · simp [setBarrier, ho]
  have hidle : ∀ o', ((s.setBarrier o { s.barriers o with closing }).barriers o').idle
      = (s.barriers o').idle := by
    intro o'
    by_cases ho : o' = o
    · subst ho
      simp [setBarrier]
    · simp [setBarrier, ho]
  constructor
  · intro k o' hk
    rw [hact]
    exact h.counted k o' hk
  · exact h.injective
  · exact h.leases
  · exact h.leaseIds
  · intro drain hdrain
    rw [hidle]
    exact h.drains drain hdrain
  · exact h.drainIds
  · intro k o' hk
    rw [hidle]
    exact h.idle k o' hk

/-- Dropping the object of a device without leases from the map. -/
lemma inv_drop (h : Inv s) (hempty : s.leasesOf key = []) :
    Inv { s with deviceBarriers := delete s.deviceBarriers key } := by
  have hlook : ∀ k o, valueAt (delete s.deviceBarriers key) k = some o →
      valueAt s.deviceBarriers k = some o := by
    intro k o hk
    by_cases hkey : k = key
    · subst hkey
      rw [valueAt_delete_self] at hk
      cases hk
    · rwa [valueAt_delete_of_ne _ hkey] at hk
  constructor
  · exact fun k o hk => h.counted k o (hlook k o hk)
  · exact fun k k' o hk hk' => h.injective k k' o (hlook k o hk) (hlook k' o hk')
  · intro lease hlease
    have hne : lease.key ≠ key := by
      rintro rfl
      have hmem : lease ∈ s.leasesOf lease.key := mem_leasesOf.mpr ⟨hlease, rfl⟩
      rw [hempty] at hmem
      cases hmem
    exact (valueAt_delete_of_ne _ hne).trans (h.leases lease hlease)
  · exact h.leaseIds
  · intro drain hdrain
    obtain ⟨hmap, hidle, hact⟩ := h.drains drain hdrain
    have hne : drain.key ≠ key := by
      rintro rfl
      exact hact hempty
    exact ⟨(valueAt_delete_of_ne _ hne).trans hmap, hidle, hact⟩
  · exact h.drainIds
  · exact fun k o hk => h.idle k o (hlook k o hk)

lemma inv_reopen (h : Inv s) (key : DeviceKey) : Inv (s.reopen key) := by
  unfold reopen
  split
  · exact h
  rename_i o ho
  have hcls := inv_setClosing h o false
  dsimp only
  split
  · rename_i hzero
    refine inv_drop hcls ?_
    have hcount := (hcls.counted key o ho).2
    exact length_eq_zero_iff.mp (hcount.symm.trans hzero)
  · exact hcls

lemma inv_reopenAll (h : Inv s) (keys : List DeviceKey) : Inv (keys.foldl reopen s) := by
  induction keys generalizing s with
  | nil => exact h
  | cons key keys ih => exact ih (inv_reopen h key)

lemma inv_closeDeviceBarrier (h : Inv s) (key : DeviceKey) : Inv (s.closeDeviceBarrier key) :=
  inv_setClosing (inv_deviceBarrier h key) _ true

section SetBarrier

variable {o o' : Nat} {b : DeviceBarrier}

@[simp] lemma setBarrier_self : (s.setBarrier o b).barriers o = b := Function.update_self ..

lemma setBarrier_of_ne (hne : o' ≠ o) : (s.setBarrier o b).barriers o' = s.barriers o' :=
  Function.update_of_ne hne ..

end SetBarrier

/-- `s` with one more lease on the object that the map has for the device. -/
def grant (s : Coordinator) (key : DeviceKey) (o : Nat) : Coordinator :=
  { s.setBarrier o { s.barriers o with active := (s.barriers o).active + 1 } with
    leases := s.leases ++ [⟨s.nextLease, key, o⟩]
    nextLease := s.nextLease + 1 }

lemma leasesOf_grant (s : Coordinator) (key k : DeviceKey) (o : Nat) : (s.grant key o).leasesOf k
      = s.leasesOf k ++ if key = k then [⟨s.nextLease, key, o⟩] else [] := by
  by_cases hk : key = k
  · subst hk
    simp [leasesOf, grant]
  · simp [leasesOf, grant, hk]

lemma grant_idle (s : Coordinator) (key : DeviceKey) (o o' : Nat) :
    ((s.grant key o).barriers o').idle = (s.barriers o').idle := by
  by_cases ho : o' = o
  · subst ho
    simp [grant]
  · exact congrArg DeviceBarrier.idle (setBarrier_of_ne ho)

section
variable (h : Inv s) {o : Nat}
include h

lemma inv_grant (hkey : valueAt s.deviceBarriers key = some o) : Inv (s.grant key o) := by
  constructor
  · intro k o' hk
    obtain ⟨hlt, hact⟩ := h.counted k o' hk
    refine ⟨hlt, ?_⟩
    rw [leasesOf_grant, length_append]
    by_cases ho : o' = o
    · subst ho
      obtain rfl := h.injective key k o' hkey hk
      simp [grant, hact]
    have hne : key ≠ k := by
      rintro rfl
      exact ho (some.inj (hk.symm.trans hkey))
    rw [if_neg hne, length_nil, Nat.add_zero, ← hact]
    exact congrArg DeviceBarrier.active (setBarrier_of_ne ho)
  · exact h.injective
  · exact forall_mem_concat.mpr ⟨h.leases, hkey⟩
  · obtain ⟨hnodup, hlt⟩ := h.leaseIds
    constructor
    · refine nodup_map_concat hnodup fun hid => ?_
      obtain ⟨lease, hlease, heq⟩ := mem_map.mp hid
      exact (hlt lease hlease).ne heq
    · exact forall_mem_concat.mpr ⟨fun lease hold => Nat.lt_succ_of_lt (hlt lease hold), Nat.lt_succ_self _⟩
  · intro drain hdrain
    obtain ⟨hmap, hidle, hact⟩ := h.drains drain hdrain
    refine ⟨hmap, (grant_idle s key o _).symm ▸ hidle, ?_⟩
    rw [leasesOf_grant]
    exact fun hnil => hact (append_eq_nil_iff.mp hnil).1
  · exact h.drainIds
  · intro k o' hk id hid
    rw [grant_idle] at hid
    exact h.idle k o' hk id hid

lemma inv_tryAcquireDeviceLease (key : DeviceKey) : Inv (s.tryAcquireDeviceLease key).1 := by
  have hfound := inv_deviceBarrier h key
  have hmap := deviceBarrier_mapped (s := s) key
  unfold tryAcquireDeviceLease
  dsimp only
  split
  · exact hfound
  · exact inv_grant hfound hmap

/-- Taking one lease out: its own device has one less, the others keep theirs. -/
lemma leasesOf_without (hlease : lease ∈ s.leases) (k : DeviceKey) :
    ((s.leases.filter (·.id ≠ lease.id)).filter (·.key = k)).length
      = if k = lease.key then (s.leasesOf k).length - 1 else (s.leasesOf k).length := by
  have hsame : ∀ x ∈ s.leases, x.id = lease.id → x = lease := fun x hx hid =>
    inj_on_of_nodup_map h.leaseIds.1 hx hlease hid
  have hnodup : s.leases.Nodup := List.Nodup.of_map _ h.leaseIds.1
  have hflt : s.leases.filter (·.id ≠ lease.id) = s.leases.erase lease := by
    rw [hnodup.erase_eq_filter]
    refine filter_congr fun x hx => ?_
    by_cases hx' : x = lease
    · simp [hx']
    · have hid : x.id ≠ lease.id := fun hid => hx' (hsame x hx hid)
      simp [hx', hid]
  have hcount := (perm_cons_erase hlease).countP_eq fun x => decide (x.key = k)
  rw [hflt, leasesOf, ← countP_eq_length_filter, ← countP_eq_length_filter, hcount, countP_cons]
  by_cases hk : k = lease.key
  · simp [hk]
  · have hk' : lease.key ≠ k := fun heq => hk heq.symm
    simp [hk, hk']

/-- `s` without one of its leases, for any drains that still match the object's waiters. -/
lemma inv_without (hlease : lease ∈ s.leases) (idle : List Nat)
    (drains : List Drain) (hsub : drains.Sublist s.drains)
    (hoth : ∀ drain ∈ s.drains, drain.barrier ≠ lease.barrier → drain ∈ drains)
    (hwait : ∀ drain ∈ drains, drain.barrier = lease.barrier →
      drain.id ∈ idle ∧ (s.leasesOf lease.key).length - 1 ≠ 0)
    (hidle : ∀ id ∈ idle, ∃ drain ∈ drains, drain.id = id ∧ drain.barrier = lease.barrier) :
    Inv { s.setBarrier lease.barrier { s.barriers lease.barrier with
          active := (s.barriers lease.barrier).active - 1
          idle } with
      leases := s.leases.filter (·.id ≠ lease.id)
      drains } := by
  have hmap := h.leases lease hlease
  constructor
  · intro k o hk
    obtain ⟨hlt, hact⟩ := h.counted k o hk
    refine ⟨hlt, Eq.trans ?_ (leasesOf_without h hlease k).symm⟩
    by_cases ho : o = lease.barrier
    · subst ho
      obtain rfl := h.injective k lease.key _ hk hmap
      simp [hact]
    have hne : k ≠ lease.key := by
      rintro rfl
      exact ho (some.inj (hk.symm.trans hmap))
    rw [if_neg hne, ← hact]
    exact congrArg DeviceBarrier.active (setBarrier_of_ne ho)
  · exact h.injective
  · intro other hother
    exact h.leases other (mem_filter.mp hother).1
  · have hkept : (s.leases.filter (·.id ≠ lease.id)).Sublist s.leases := filter_sublist
    exact ⟨h.leaseIds.1.sublist (hkept.map _), fun other hother =>
      h.leaseIds.2 other (hkept.subset hother)⟩
  · intro drain hdrain
    obtain ⟨hdraM, hdraI, hdraA⟩ := h.drains drain (hsub.subset hdrain)
    have hlen := leasesOf_without h hlease drain.key
    by_cases ho : drain.barrier = lease.barrier
    · obtain ⟨hin, hmore⟩ := hwait drain hdrain ho
      have hkey := h.injective _ _ _ hdraM (ho ▸ hmap)
      rw [if_pos hkey, hkey] at hlen
      refine ⟨hdraM, ?_, ?_⟩
      · simpa [ho] using hin
      intro hnil
      apply hmore
      rw [← hlen, ← hkey]
      exact congrArg length hnil
    · have hkey : drain.key ≠ lease.key := by
        intro heq
        rw [heq] at hdraM
        exact ho (some.inj (hdraM.symm.trans hmap))
      rw [if_neg hkey] at hlen
      refine ⟨hdraM, ?_, ?_⟩
      · exact (congrArg DeviceBarrier.idle (setBarrier_of_ne ho)).symm ▸ hdraI
      intro hnil
      apply hdraA
      apply length_eq_zero_iff.mp
      rw [← hlen]
      exact congrArg length hnil
  · exact ⟨h.drainIds.1.sublist (hsub.map _), fun drain hdrain =>
      h.drainIds.2 drain (hsub.subset hdrain)⟩
  · intro k o hk id hid
    by_cases ho : o = lease.barrier
    · subst ho
      exact hidle id (by simpa using hid)
    have hid' : id ∈ (s.barriers o).idle :=
      (congrArg DeviceBarrier.idle (setBarrier_of_ne ho)) ▸ hid
    obtain ⟨drain, hdrain, rfl, rfl⟩ := h.idle k o hk id hid'
    exact ⟨drain, hoth drain hdrain ho, rfl, rfl⟩

lemma inv_release (id : Nat) : Inv (s.release id).1 := by
  unfold release
  split
  · exact h
  rename_i lease hfind
  have hlease := mem_of_find?_eq_some hfind
  have hid : lease.id = id := by simpa using find?_some hfind
  subst hid
  have hmap := h.leases lease hlease
  have hcount := (h.counted _ _ hmap).2
  dsimp only
  split
  · rename_i hzero
    -- the last lease: the waiters are woken, and no drain of the object is left
    have hlast := inv_without h hlease [] (s.drains.filter (·.id ∉ (s.barriers lease.barrier).idle)) filter_sublist
      (by
        intro drain hdrain ho
        refine mem_filter.mpr ⟨hdrain, ?_⟩
        simp only [decide_eq_true_eq]
        intro hidle
        obtain ⟨other, hother, hsame, hbar⟩ := h.idle _ _ hmap _ hidle
        obtain rfl := inj_on_of_nodup_map h.drainIds.1 hother hdrain hsame
        exact ho hbar)
      (by
        intro drain hdrain ho
        obtain ⟨hdrain, hnot⟩ := mem_filter.mp hdrain
        exact absurd (ho ▸ (h.drains drain hdrain).2.1) (by simpa using hnot))
      (by simp)
    split
    · refine inv_drop hlast ?_
      apply length_eq_zero_iff.mp
      have hlen := leasesOf_without h hlease lease.key
      rw [if_pos rfl, ← hcount, hzero] at hlen
      exact hlen
    · exact hlast
  · rename_i hmore
    refine inv_without h hlease _ _ (List.Sublist.refl _) (fun drain hdrain _ => hdrain) ?_ ?_
    · intro drain hdrain ho
      refine ⟨ho ▸ (h.drains drain hdrain).2.1, ?_⟩
      rwa [← hcount]
    · exact h.idle _ _ hmap

lemma inv_settleAcquire (id : Nat) (allowed : Bool) : Inv (s.settleAcquire id allowed).1 := by
  cases allowed with
  | true => exact h
  | false => exact inv_release h id

lemma inv_drainDeviceLeases (key : DeviceKey) : Inv (s.drainDeviceLeases key).1 := by
  unfold drainDeviceLeases
  split
  · exact h
  rename_i o ho
  dsimp only
  split
  · exact h
  rename_i hpos
  have hfresh : ∀ drain ∈ s.drains, drain.id ≠ s.nextDrain := fun drain hdrain =>
    (h.drainIds.2 drain hdrain).ne
  have hact : ∀ o' : Nat, ((s.setBarrier o
      { s.barriers o with idle := (s.barriers o).idle ++ [s.nextDrain] }).barriers o').active
        = (s.barriers o').active := by
    intro o'
    by_cases heq : o' = o
    · subst heq
      simp
    · rw [setBarrier_of_ne heq]
  constructor
  · intro k o' hk
    obtain ⟨hlt, hcount⟩ := h.counted k o' hk
    exact ⟨hlt, (hact o').trans hcount⟩
  · exact h.injective
  · exact h.leases
  · exact h.leaseIds
  · refine forall_mem_concat.mpr ⟨fun drain hold => ?_, ?_⟩
    · obtain ⟨hmap, hidle, hlive⟩ := h.drains drain hold
      refine ⟨hmap, ?_, hlive⟩
      by_cases heq : drain.barrier = o
      · simp [heq, heq ▸ hidle]
      · exact (congrArg DeviceBarrier.idle (setBarrier_of_ne heq)).symm ▸ hidle
    · refine ⟨ho, by simp, ?_⟩
      intro hnil
      apply hpos
      rw [(h.counted key o ho).2]
      exact congrArg length hnil
  · obtain ⟨hnodup, hlt⟩ := h.drainIds
    constructor
    · refine nodup_map_concat hnodup fun hid => ?_
      obtain ⟨drain, hdrain, heq⟩ := mem_map.mp hid
      exact hfresh drain hdrain heq
    · exact forall_mem_concat.mpr ⟨fun drain hold => Nat.lt_succ_of_lt (hlt drain hold), Nat.lt_succ_self _⟩
  · intro k o' hk id hid
    have hcases : id ∈ (s.barriers o').idle ∨ (o' = o ∧ id = s.nextDrain) := by
      by_cases heq : o' = o
      · subst heq
        have hid' : id ∈ (s.barriers o').idle ++ [s.nextDrain] := by simpa using hid
        rcases mem_append.mp hid' with hold | hnew
        · exact .inl hold
        · exact .inr ⟨rfl, mem_singleton.mp hnew⟩
      · exact .inl ((congrArg DeviceBarrier.idle (setBarrier_of_ne heq)) ▸ hid)
    rcases hcases with hold | ⟨rfl, rfl⟩
    · obtain ⟨drain, hdrain, hid, hbar⟩ := h.idle k o' hk id hold
      exact ⟨drain, mem_append_left _ hdrain, hid, hbar⟩
    · exact ⟨_, mem_append_right _ (mem_singleton.mpr rfl), rfl, rfl⟩

lemma inv_timeout (id : Nat) : Inv (s.timeout id).1 := by
  unfold timeout
  split
  · exact h
  rename_i late hfind
  have hlate := mem_of_find?_eq_some hfind
  have hid : late.id = id := by simpa using find?_some hfind
  subst hid
  have hact : ∀ o : Nat, ((s.setBarrier late.barrier { s.barriers late.barrier with
      idle := (s.barriers late.barrier).idle.filter (· ≠ late.id) }).barriers o).active
        = (s.barriers o).active := by
    intro o
    by_cases heq : o = late.barrier
    · subst heq
      simp
    · rw [setBarrier_of_ne heq]
  have hkept : (s.drains.filter (·.id ≠ late.id)).Sublist s.drains := filter_sublist
  constructor
  · intro k o hk
    obtain ⟨hlt, hcount⟩ := h.counted k o hk
    exact ⟨hlt, (hact o).trans hcount⟩
  · exact h.injective
  · exact h.leases
  · exact h.leaseIds
  · intro drain hdrain
    obtain ⟨hmap, hidle, hlive⟩ := h.drains drain (hkept.subset hdrain)
    refine ⟨hmap, ?_, hlive⟩
    have hne : drain.id ≠ late.id := by simpa using (mem_filter.mp hdrain).2
    by_cases heq : drain.barrier = late.barrier
    · simp [heq, heq ▸ hidle, hne]
    · exact (congrArg DeviceBarrier.idle (setBarrier_of_ne heq)).symm ▸ hidle
  · exact ⟨h.drainIds.1.sublist (hkept.map _), fun drain hdrain =>
      h.drainIds.2 drain (hkept.subset hdrain)⟩
  · intro k o hk id hid
    have hcases : id ∈ (s.barriers o).idle ∧ (o = late.barrier → id ≠ late.id) := by
      by_cases heq : o = late.barrier
      · subst heq
        have hid' : id ∈ (s.barriers late.barrier).idle.filter (· ≠ late.id) := by simpa using hid
        obtain ⟨hold, hne⟩ := mem_filter.mp hid'
        exact ⟨hold, fun _ => by simpa using hne⟩
      · exact ⟨(congrArg DeviceBarrier.idle (setBarrier_of_ne heq)) ▸ hid, fun hsame =>
          absurd hsame heq⟩
    obtain ⟨drain, hdrain, rfl, rfl⟩ := h.idle k o hk id hcases.1
    refine ⟨drain, mem_filter.mpr ⟨hdrain, ?_⟩, rfl, rfl⟩
    simp only [decide_eq_true_eq]
    intro hsame
    obtain rfl := inj_on_of_nodup_map h.drainIds.1 hdrain hlate hsame
    exact hcases.2 rfl rfl

lemma inv_step (label : Label) : Inv (s.step label).1 := by
  cases label with
  | tryAcquireDeviceLease key => exact inv_tryAcquireDeviceLease h key
  | settleAcquire lease allowed => exact inv_settleAcquire h lease allowed
  | release lease => exact inv_release h lease
  | closeDeviceBarrier key => exact inv_closeDeviceBarrier h key
  | releaseDeviceBarrier key => exact inv_reopen h key
  | releaseDeviceBarriersForVault vaultId => exact inv_reopenAll h _
  | drainDeviceLeases key => exact inv_drainDeviceLeases h key
  | timeout drain => exact inv_timeout h drain

lemma inv_run (labels : List Label) : Inv (s.run labels) := by
  induction labels generalizing s with
  | nil => exact h
  | cons label labels ih => exact ih (inv_step h label)

lemma Inv.live_mapped (hlive : Live s key o) : valueAt s.deviceBarriers key = some o := by
  rcases hlive with hmap | ⟨lease, hlease, rfl, rfl⟩ | ⟨drain, hdrain, rfl, rfl⟩
  · exact hmap
  · exact h.leases lease hlease
  · exact (h.drains drain hdrain).1

lemma Inv.activeDeviceLeaseCount_eq (key : DeviceKey) : s.activeDeviceLeaseCount key = (s.leasesOf key).length := by
  unfold activeDeviceLeaseCount
  split
  · rename_i o ho
    exact (h.counted key o ho).2
  rename_i hnone
  rw [h.leasesOf_of_unmapped hnone]
  rfl

end

lemma isDeviceRemoving_deviceBarrier (s : Coordinator) (key : DeviceKey) :
    ((s.deviceBarrier key).1.barriers (s.deviceBarrier key).2).closing = s.isDeviceRemoving key := by
  unfold deviceBarrier isDeviceRemoving
  split
  · rfl
  · simp [DeviceBarrier.fresh]

lemma release_outputs (h : Inv s) {id : Nat} {output : Output} (hout : output ∈ (s.release id).2) :
    ∃ key, output = .drained key true ∧ (s.release id).1.leasesOf key = [] := by
  have hafter := inv_release h id
  revert hout hafter
  unfold release
  split
  · intro hout
    cases hout
  rename_i lease hfind
  have hlease := mem_of_find?_eq_some hfind
  have hid : lease.id = id := by simpa using find?_some hfind
  subst hid
  have hmap := h.leases lease hlease
  have hcount := (h.counted _ _ hmap).2
  dsimp only
  split
  · rename_i hzero
    have hempty : (s.leases.filter (·.id ≠ lease.id)).filter (·.key = lease.key) = [] := by
      apply length_eq_zero_iff.mp
      rw [leasesOf_without h hlease, if_pos rfl, ← hcount, hzero]
    -- every woken drain waited for this device
    have hwoken : ∀ out ∈ (s.drains.filter (·.id ∈ (s.barriers lease.barrier).idle)).map
        (fun drain => Output.drained drain.key true), out = .drained lease.key true := by
      intro out hout
      obtain ⟨drain, hdrain, rfl⟩ := mem_map.mp hout
      obtain ⟨hdrain, hidle⟩ := mem_filter.mp hdrain
      obtain ⟨other, hother, hsame, hbar⟩ := h.idle _ _ hmap _ (by simpa using hidle)
      obtain rfl := inj_on_of_nodup_map h.drainIds.1 hother hdrain hsame
      have hkey := h.injective _ _ _ (hbar ▸ (h.drains other hdrain).1) hmap
      rw [hkey]
    split
    · intro hout _
      exact ⟨lease.key, hwoken output hout, hempty⟩
    · intro hout _
      exact ⟨lease.key, hwoken output hout, hempty⟩
  · intro hout
    cases hout

lemma granted_open (h : Inv s) (hout : .granted lease ∈ (s.step label).2) :
    lease ∈ (s.step label).1.leases ∧ s.isDeviceRemoving lease.key = false := by
  cases label with
  | tryAcquireDeviceLease key =>
    revert hout
    simp only [step, tryAcquireDeviceLease]
    split
    · intro hout
      simp at hout
    rename_i hopen
    intro hout
    have hlease := Output.granted.inj (mem_singleton.mp hout)
    subst hlease
    refine ⟨by simp, ?_⟩
    rw [← isDeviceRemoving_deviceBarrier]
    exact eq_false_of_ne_true hopen
  | settleAcquire id allowed =>
    cases allowed with
    | true => cases hout
    | false =>
      obtain ⟨key, hdrn, -⟩ := release_outputs h hout
      cases hdrn
  | release id =>
    obtain ⟨key, hdrn, -⟩ := release_outputs h hout
    cases hdrn
  | drainDeviceLeases key =>
    revert hout
    simp only [step, drainDeviceLeases]
    split
    · simp
    · split <;> simp
  | timeout id =>
    revert hout
    simp only [step, timeout]
    split <;> simp
  | closeDeviceBarrier | releaseDeviceBarrier | releaseDeviceBarriersForVault => cases hout

lemma drained_empty (h : Inv s)
    (hout : .drained key true ∈ (s.step label).2) : (s.step label).1.leasesOf key = [] := by
  cases label with
  | tryAcquireDeviceLease other =>
    revert hout
    simp only [step, tryAcquireDeviceLease]
    split <;> simp
  | settleAcquire id allowed =>
    cases allowed with
    | true => cases hout
    | false =>
      obtain ⟨_, hdrn, hempty⟩ := release_outputs h hout
      obtain ⟨rfl, -⟩ := Output.drained.inj hdrn
      exact hempty
  | release id =>
    obtain ⟨_, hdrn, hempty⟩ := release_outputs h hout
    obtain ⟨rfl, -⟩ := Output.drained.inj hdrn
    exact hempty
  | drainDeviceLeases other =>
    revert hout
    simp only [step, drainDeviceLeases]
    split
    · rename_i hnone
      intro hout
      obtain ⟨rfl, -⟩ := Output.drained.inj (mem_singleton.mp hout)
      exact h.leasesOf_of_unmapped hnone
    rename_i o ho
    split
    · rename_i hzero
      intro hout
      obtain ⟨rfl, -⟩ := Output.drained.inj (mem_singleton.mp hout)
      apply length_eq_zero_iff.mp
      rw [← (h.counted _ o ho).2, hzero]
    · intro hout
      cases hout
  | timeout id =>
    revert hout
    simp only [step, timeout]
    split <;> simp
  | closeDeviceBarrier | releaseDeviceBarrier | releaseDeviceBarriersForVault => cases hout

/-- What holds after any run of the coordinator, and of the step after it. -/
theorem device_lease_safety (labels : List Label) (label : Label) : let s := start.run labels
    (∀ key, s.activeDeviceLeaseCount key = (s.leasesOf key).length) ∧
    (∀ key o, Live s key o → (s.barriers o).active = (s.leasesOf key).length) ∧
    (∀ lease, .granted lease ∈ (s.step label).2 →
      lease ∈ (s.step label).1.leases ∧ s.isDeviceRemoving lease.key = false) ∧
    (∀ key, .drained key true ∈ (s.step label).2 → (s.step label).1.leasesOf key = []) ∧
    ∀ key o o', Live s key o → Live s key o' → o = o' := by
  intro s
  have h : Inv s := inv_run inv_start labels
  refine ⟨h.activeDeviceLeaseCount_eq, ?_, ?_, ?_, ?_⟩
  · intro key o hlive
    exact (h.counted key o (h.live_mapped hlive)).2
  · exact fun lease => granted_open h
  · exact fun key => drained_empty h
  · intro key o o' hlive hlive'
    exact some.inj ((h.live_mapped hlive).symm.trans (h.live_mapped hlive'))

/-- No drain waits in vain, in any run: its device has leases, and each of them is counted on the object
that will wake it. -/
theorem drains_wait_for_leases (labels : List Label) : let s := start.run labels
    (∀ drain ∈ s.drains, s.leasesOf drain.key ≠ []) ∧
      ∀ drain ∈ s.drains, drain.id ∈ (s.barriers drain.barrier).idle ∧
        ∀ lease ∈ s.leasesOf drain.key, lease.barrier = drain.barrier := by
  intro s
  have h : Inv s := inv_run inv_start labels
  refine ⟨fun drain hdrain => (h.drains drain hdrain).2.2, fun drain hdrain => ?_⟩
  obtain ⟨hmap, hidle, -⟩ := h.drains drain hdrain
  refine ⟨hidle, fun lease hlease => ?_⟩
  obtain ⟨hlease, hkey⟩ := mem_leasesOf.mp hlease
  exact some.inj ((h.leases lease hlease).symm.trans (hkey ▸ hmap))

end Coordinator
end DeviceLeases
