import Mathlib.Data.List.Basic
import Obts.InsertionOrder

/-!
# Queues of conflicting claims

Claims are granted in the order in which they were queued, except that a claim may pass the waiting
claims that it does not conflict with. A scan looks at the pending claims once, from the first to the
last, and leaves none behind that could be granted.
-/
namespace ClaimQueue

open List List.Sublist

variable {α : Type*}

/-- The active and the pending claims, and the history of both. -/
structure Queue (α : Type*) where
  active : List α := []
  pending : List α := []
  /-- Every claim that was queued, in that order. -/
  queued : List α := []
  /-- Every claim that was granted, in that order. -/
  granted : List α := []

variable (conflicts : α → α → Bool) {l : List α}

/-- Goes through the claims that remain to be looked at; those before them that wait are pending. -/
def scan (q : Queue α) : List α → Queue α
  | [] => q
  | claim :: rest =>
    if q.active.any (conflicts claim) || q.pending.any (conflicts claim) then
      scan { q with pending := q.pending ++ [claim] } rest
    else scan { q with active := q.active ++ [claim], granted := q.granted ++ [claim] } rest

def pump (q : Queue α) : Queue α := scan conflicts { q with pending := [] } q.pending

def enqueue (claim : α) (q : Queue α) : Queue α :=
  pump conflicts { q with pending := q.pending ++ [claim], queued := q.queued ++ [claim] }

def release [DecidableEq α] (claim : α) (q : Queue α) : Queue α :=
  pump conflicts { q with active := q.active.erase claim }

@[simp] lemma scan_queued (q : Queue α) (rest : List α) : (scan conflicts q rest).queued = q.queued := by
  induction rest generalizing q with
  | nil => rfl
  | cons claim rest ih =>
    rw [scan]
    split
    · rw [ih]
    · rw [ih]

@[simp] lemma enqueue_queued (claim : α) (q : Queue α) :
    (enqueue conflicts claim q).queued = q.queued ++ [claim] := by
  rw [enqueue, pump, scan_queued]

@[simp] lemma release_queued [DecidableEq α] (claim : α) (q : Queue α) :
    (release conflicts claim q).queued = q.queued := by
  rw [release, pump, scan_queued]

/-- In a list without repetition, one of two elements comes first. -/
lemma Pair.asymm {a b : α} (hl : l.Nodup) (hab : [a, b].Sublist l) : ¬ [b, a].Sublist l := by
  induction l with
  | nil => exact fun _ => nomatch hab
  | cons x l ih =>
    rw [nodup_cons] at hl
    intro hba
    rcases cons_sublist_cons'.mp hab with hrest | ⟨rfl, hb⟩
    · rcases cons_sublist_cons'.mp hba with hrest' | ⟨rfl, -⟩
      · exact ih hl.2 hrest hrest'
      · exact hl.1 (hrest.subset (mem_cons_of_mem _ mem_cons_self))
    rcases cons_sublist_cons'.mp hba with hrest' | ⟨rfl, ha⟩
    · exact hl.1 (hrest'.subset (mem_cons_of_mem _ mem_cons_self))
    · exact hl.1 (singleton_sublist.mp ha)

lemma pair_append {a b : α} (ha : a ∈ l) : [a, b].Sublist (l ++ [b]) :=
  (singleton_sublist.mpr ha).append (refl [b])

lemma pair_of_append {a b c : α} (h : [a, b].Sublist (l ++ [c])) (hne : b ≠ c) : [a, b].Sublist l := by
  obtain ⟨front, back, heq, hfront, hback⟩ := sublist_append_iff.mp h
  rcases sublist_singleton.mp hback with rfl | rfl
  · rw [append_nil] at heq
    exact heq ▸ hfront
  have hlast := congrArg getLast? heq
  simp only [getLast?_concat, getLast?_cons_cons, getLast?_singleton] at hlast
  exact absurd (Option.some.inj hlast) hne

variable {conflicts} {q : Queue α} {claim : α} {rest active pending : List α}

/-- No two active claims conflict. -/
def Apart (conflicts : α → α → Bool) (active : List α) : Prop :=
  active.Pairwise fun earlier later => conflicts later earlier = false

/-- Every pending claim waits for an active claim, or for an earlier pending one. -/
def Waits (conflicts : α → α → Bool) (active pending : List α) : Prop :=
  ∀ front claim back, pending = front ++ claim :: back →
    (∃ other ∈ active, conflicts claim other = true) ∨ ∃ other ∈ front, conflicts claim other = true

/-- Conflicting claims are granted in the order in which they were queued. -/
def InOrder (conflicts : α → α → Bool) (q : Queue α) : Prop :=
  ∀ earlier later, [earlier, later].Sublist q.queued → conflicts later earlier = true →
    later ∈ q.granted → [earlier, later].Sublist q.granted

/-- The histories of a queue; a scan has yet to look at the rest. -/
structure Recorded (conflicts : α → α → Bool) (q : Queue α) (rest : List α) : Prop where
  nodup : q.queued.Nodup
  sublist : (q.pending ++ rest).Sublist q.queued
  settled : ∀ claim ∈ q.queued, claim ∈ q.granted ∨ claim ∈ q.pending ++ rest
  waiting : ∀ claim ∈ q.pending ++ rest, claim ∉ q.granted
  known : ∀ claim ∈ q.granted, claim ∈ q.queued
  order : InOrder conflicts q

lemma Waits.grant (h : Waits conflicts active pending) (claim : α) :
    Waits conflicts (active ++ [claim]) pending := by
  intro front other back heq
  rcases h front other back heq with ⟨holder, hmem, hconf⟩ | hfront
  · exact .inl ⟨holder, mem_append_left _ hmem, hconf⟩
  · exact .inr hfront

lemma Waits.keep (h : Waits conflicts active pending)
    (hblk : (active.any (conflicts claim) || pending.any (conflicts claim))) :
    Waits conflicts active (pending ++ [claim]) := by
  intro front other back heq
  rcases append_eq_append_iff.mp heq with ⟨middle, hfront, hback⟩ | ⟨middle, hpend, hback⟩
  · cases middle with
    | nil =>
      obtain ⟨rfl, -⟩ := cons.inj hback
      rw [append_nil] at hfront
      subst hfront
      rw [Bool.or_eq_true, any_eq_true, any_eq_true] at hblk
      exact hblk
    | cons first middle =>
      have hnil := (cons.inj hback).2
      simp at hnil
  · cases middle with
    | nil =>
      obtain ⟨rfl, -⟩ := cons.inj hback
      rw [append_nil] at hpend
      subst hpend
      rw [Bool.or_eq_true, any_eq_true, any_eq_true] at hblk
      exact hblk
    | cons first middle =>
      obtain ⟨rfl, -⟩ := cons.inj hback
      exact h front _ middle hpend

lemma Apart.grant (h : Apart conflicts active)
    (hfree : active.any (conflicts claim) = false) : Apart conflicts (active ++ [claim]) := by
  refine pairwise_append.mpr ⟨h, pairwise_singleton _ _, ?_⟩
  intro other hother last hlast
  rw [mem_singleton.mp hlast]
  rw [any_eq_false] at hfree
  exact Bool.eq_false_iff.mpr (hfree other hother)

lemma Recorded.keep (h : Recorded conflicts q (claim :: rest)) :
    Recorded conflicts { q with pending := q.pending ++ [claim] } rest := by
  have hsame : q.pending ++ [claim] ++ rest = q.pending ++ claim :: rest := by simp
  constructor
  · exact h.nodup
  · exact hsame ▸ h.sublist
  · exact hsame ▸ h.settled
  · exact hsame ▸ h.waiting
  · exact h.known
  · exact h.order

/-- A claim that conflicts with no earlier pending claim is granted after all that it conflicts with. -/
lemma Recorded.grant (h : Recorded conflicts q (claim :: rest)) (hfree : q.pending.any (conflicts claim) = false) :
    Recorded conflicts { q with active := q.active ++ [claim], granted := q.granted ++ [claim] } rest := by
  have hsub : (q.pending ++ rest).Sublist (q.pending ++ claim :: rest) :=
    (refl _).append (sublist_cons_self _ _)
  have hpend : (q.pending ++ claim :: rest).Nodup := h.nodup.sublist h.sublist
  constructor
  · exact h.nodup
  · exact hsub.trans h.sublist
  · intro other hother
    rcases h.settled other hother with hgrt | hwaits
    · exact .inl (mem_append_left _ hgrt)
    rcases mem_append.mp hwaits with hfront | hback
    · exact .inr (mem_append_left _ hfront)
    rcases mem_cons.mp hback with rfl | hrest
    · exact .inl (mem_append_right _ mem_cons_self)
    · exact .inr (mem_append_right _ hrest)
  · intro other hother hgrt
    rcases mem_append.mp hgrt with hold | hnew
    · exact h.waiting other (hsub.subset hother) hold
    rw [mem_singleton.mp hnew] at hother
    have hnodup := nodup_middle.mp hpend
    exact (nodup_cons.mp hnodup).1 hother
  · exact InsertionOrder.forall_mem_concat.mpr ⟨h.known, h.sublist.subset (mem_append_right _ mem_cons_self)⟩
  · intro earlier later hque hconf hlater
    rcases mem_append.mp hlater with hold | hnew
    · exact (h.order earlier later hque hconf hold).trans (sublist_append_left _ _)
    rw [mem_singleton] at hnew
    subst hnew
    have hmem : earlier ∈ q.queued := hque.subset mem_cons_self
    rcases h.settled earlier hmem with hgrt | hwaits
    · exact pair_append hgrt
    exfalso
    rcases mem_append.mp hwaits with hfront | hback
    · rw [any_eq_false] at hfree
      exact hfree earlier hfront hconf
    -- the earlier claim would be queued after this one as well
    have hswap : [later, earlier].Sublist q.queued := by
      refine List.Sublist.trans ?_ ((sublist_append_right q.pending _).trans h.sublist)
      rcases mem_cons.mp hback with rfl | hrest
      · exact absurd hque (Pair.asymm h.nodup hque)
      · exact (singleton_sublist.mpr hrest).cons_cons later
    exact Pair.asymm h.nodup hque hswap

/-- What holds between two steps. -/
structure Fair (conflicts : α → α → Bool) (q : Queue α) : Prop where
  apart : Apart conflicts q.active
  waits : Waits conflicts q.active q.pending
  recorded : Recorded conflicts q []

lemma scan_fair (hapart : Apart conflicts q.active)
    (hwaits : Waits conflicts q.active q.pending) (hrec : Recorded conflicts q rest) :
    Fair conflicts (scan conflicts q rest) := by
  induction rest generalizing q with
  | nil => exact ⟨hapart, hwaits, hrec⟩
  | cons claim rest ih =>
    rw [scan]
    split
    · rename_i hblk
      exact ih hapart (hwaits.keep hblk) hrec.keep
    rename_i hfree
    rw [Bool.not_eq_true, Bool.or_eq_false_iff] at hfree
    exact ih (hapart.grant hfree.1) (hwaits.grant claim) (hrec.grant hfree.2)

lemma pump_fair (hapart : Apart conflicts q.active)
    (hrec : Recorded conflicts q []) : Fair conflicts (pump conflicts q) := by
  refine scan_fair hapart ?_ ?_
  · intro front claim back heq
    simp at heq
  have hsame : q.pending ++ [] = [] ++ q.pending := append_nil _
  constructor
  · exact hrec.nodup
  · exact hsame ▸ hrec.sublist
  · exact hsame ▸ hrec.settled
  · exact hsame ▸ hrec.waiting
  · exact hrec.known
  · exact hrec.order

lemma fair_empty : Fair conflicts ({} : Queue α) := by
  refine ⟨List.Pairwise.nil, ?_, nodup_nil, refl _, ?_, ?_, ?_, ?_⟩
  · intro front claim back heq
    simp at heq
  · intro claim hmem
    cases hmem
  · intro claim hmem
    cases hmem
  · intro claim hmem
    cases hmem
  · intro earlier later _ _ hlater
    cases hlater

lemma Fair.enqueue (h : Fair conflicts q) (hnew : claim ∉ q.queued) :
    Fair conflicts (enqueue conflicts claim q) := by
  obtain ⟨hapart, -, hrec⟩ := h
  have hgrt : claim ∉ q.granted := fun hmem => hnew (hrec.known claim hmem)
  have hnil : q.pending ++ [] = q.pending := append_nil _
  refine pump_fair hapart ?_
  constructor
  · exact nodup_append.mpr ⟨hrec.nodup, nodup_singleton _, fun a ha b hb hab =>
      hnew (by rwa [← mem_singleton.mp hb, ← hab])⟩
  · rw [append_nil]
    exact (hnil ▸ hrec.sublist).append (refl _)
  · intro other hother
    rw [append_nil]
    rcases mem_append.mp hother with hold | hlast
    · exact (hrec.settled other hold).imp id fun hwaits =>
        mem_append_left _ (hnil ▸ hwaits)
    · exact .inr (mem_append_right _ hlast)
  · intro other hother
    rw [append_nil] at hother
    rcases mem_append.mp hother with hold | hlast
    · exact hrec.waiting other (hnil.symm ▸ hold)
    · rw [mem_singleton.mp hlast]
      exact hgrt
  · exact fun other hother => mem_append_left _ (hrec.known other hother)
  · intro earlier later hque hconf hlater
    refine hrec.order earlier later (pair_of_append hque ?_) hconf hlater
    rintro rfl
    exact hgrt hlater

lemma Fair.release [DecidableEq α] (h : Fair conflicts q) (claim : α) :
    Fair conflicts (release conflicts claim q) := by
  refine pump_fair (h.apart.sublist erase_sublist) ?_
  exact { h.recorded with }

end ClaimQueue
