import Mathlib.Data.List.Perm.Subperm
import Mathlib.Logic.Function.Basic
import Mathlib.Order.Lattice.Nat

/-!
# Searching in breadth

A search keeps what it has found, with what each was found from, and the queue of what it has still to
look at. Things are found in the order of their distances from the source, so the way back from the goal
is as short as any.
-/
namespace BreadthFirst

open List

structure Search (α : Type*) where
  parents : α → Option (Option α)
  queue : List α

variable {α : Type*}

/-- What was found from what, from an end back to the source; none when the fuel does not suffice. -/
def trace (parents : α → Option (Option α)) : Nat → α → Option (List α)
  | 0, _ => none
  | fuel + 1, cursor =>
    match parents cursor with
    | some (some parent) => (trace parents fuel parent).map (cursor :: ·)
    | _ => some [cursor]

section Run
variable [DecidableEq α] (targets : α → List α) (allowed : α → Bool) (goal : α)

def discover (id : α) (s : Search α) (next : α) : Search α :=
  if (s.parents next).isSome then s
  else if allowed next then ⟨Function.update s.parents next (some (some id)), s.queue ++ [next]⟩
  else s

/-- The loop over the queue; none when the fuel does not suffice. -/
def run (fuel : Nat) : Nat → Search α → Option (Option (List α))
  | 0, _ => none
  | turns + 1, s =>
    match s.queue with
    | [] => some none
    | id :: queue =>
      if id = goal then (trace s.parents fuel id).map fun path => some path.reverse
      else run fuel turns ((targets id).foldl (discover allowed id) { s with queue })

def start (source : α) : Search α := ⟨Function.update (fun _ => none) source (some none), [source]⟩

def Step (u v : α) : Prop := v ∈ targets u ∧ allowed v = true

end Run

section Distances
variable (step : α → α → Prop) (source : α)

/-- A way from the source, with all that it passes. -/
inductive Leads : List α → α → Prop
  | here : Leads [source] source
  | on {path : List α} {u v : α} : Leads path u → step u v → Leads (path ++ [v]) v

/-- The steps of a shortest way. -/
noncomputable def dist (v : α) : Nat := sInf {n | ∃ path, Leads step source path v ∧ path.length = n + 1}

/-- What holds of the things found: those looked at, and those that wait. -/
structure Searched (popped waiting found : List α) (parents : α → Option (Option α)) : Prop where
  split : found = popped ++ waiting
  mem : ∀ v, (parents v).isSome = true ↔ v ∈ found
  nodup : found.Nodup
  begins : source ∈ found
  root : ∀ v, parents v = some none → v = source
  parent : ∀ u v, parents v = some (some u) → step u v ∧ u ∈ found ∧ dist step source v = dist step source u + 1
  sorted : found.Pairwise fun u v => dist step source u ≤ dist step source v
  near : ∀ q ∈ waiting, ∀ v ∈ found, dist step source v ≤ dist step source q + 1
  size : ∀ v ∈ found, dist step source v < found.length
  closed : ∀ u ∈ popped, ∀ v, step u v → v ∈ found

variable {step source} {popped waiting queue found path : List α} {u v id next : α}
variable {parents : α → Option (Option α)}

lemma dist_lt (h : Leads step source path v) : dist step source v < path.length := by
  have hpos : 0 < path.length := by
    cases h <;> simp
  exact Nat.lt_of_le_pred hpos (Nat.sInf_le ⟨path, h, (Nat.succ_pred hpos.ne').symm⟩)

lemma dist_source : dist step source source = 0 :=
  Nat.lt_one_iff.mp (dist_lt .here)

/-- The way back from what is found is a shortest way to it. -/
lemma trace_spec (hs : Searched step source popped waiting found parents) (hv : v ∈ found)
    {fuel : Nat} (hfuel : dist step source v < fuel) :
    ∃ path, trace parents fuel v = some path ∧ Leads step source path.reverse v ∧
      path.length = dist step source v + 1 := by
  induction fuel generalizing v with
  | zero => exact absurd hfuel (Nat.not_lt_zero _)
  | succ fuel ih =>
    rw [trace]
    cases hp : parents v with
    | none =>
      have hfound := (hs.mem v).mpr hv
      simp [hp] at hfound
    | some parent =>
      cases parent with
      | none =>
        obtain rfl := hs.root v hp
        exact ⟨[v], rfl, .here, by rw [dist_source]; rfl⟩
      | some u =>
        obtain ⟨hstep, hu, hdist⟩ := hs.parent u v hp
        obtain ⟨path, htrace, hleads, hlen⟩ := ih hu (by omega)
        refine ⟨v :: path, ?_, ?_, ?_⟩
        · simp [htrace]
        · rw [reverse_cons]
          exact hleads.on hstep
        · rw [length_cons, hlen, hdist]

/-- What is not found is farther than something that waits. -/
lemma found_or_waits (hs : Searched step source popped waiting found parents) (h : Leads step source path v) :
    v ∈ found ∨ ∃ q ∈ waiting, dist step source q + 1 < path.length := by
  induction h with
  | here => exact .inl hs.begins
  | @on path u v hpath hstep ih =>
    rw [length_append, length_singleton]
    rcases ih with hu | ⟨q, hq, hlt⟩
    · rcases mem_append.mp (hs.split ▸ hu) with hpop | hwait
      · exact .inl (hs.closed u hpop v hstep)
      · exact .inr ⟨u, hwait, Nat.succ_lt_succ (dist_lt hpath)⟩
    · exact .inr ⟨q, hq, hlt.trans (Nat.lt_succ_self _)⟩

section
variable (hs : Searched step source popped (id :: queue) found parents)
include hs

lemma head_mem : id ∈ found :=
  hs.split ▸ mem_append_right _ mem_cons_self

lemma dist_head_le {q : α} (hq : q ∈ id :: queue) : dist step source id ≤ dist step source q := by
  rcases mem_cons.mp hq with rfl | hq
  · exact Nat.le_refl _
  · exact (pairwise_cons.mp (pairwise_append.mp (hs.split ▸ hs.sorted)).2.1).1 q hq

/-- What a step from the head finds is one step farther. -/
lemma dist_next (hstep : step id next) (hnew : next ∉ found) : dist step source next = dist step source id + 1 := by
  obtain ⟨path, -, hleads, hlen⟩ := trace_spec hs (head_mem hs) (Nat.lt_succ_self _)
  have hnext := hleads.on hstep
  have hlt := dist_lt hnext
  rw [length_append, length_reverse, hlen, length_singleton] at hlt
  obtain ⟨path, hpath, hmin⟩ : dist step source next ∈ {n | ∃ path, Leads step source path next ∧
    path.length = n + 1} := Nat.sInf_mem ⟨dist step source id + 1, _, hnext, by simp [hlen]⟩
  rcases found_or_waits hs hpath with hfound | ⟨q, hq, hfar⟩
  · exact absurd hfound hnew
  · have hle := dist_head_le hs hq
    omega

end

lemma Searched.insert [DecidableEq α] (hs : Searched step source popped (id :: queue) found parents)
    (hstep : step id next) (hnew : next ∉ found) :
    Searched step source popped (id :: (queue ++ [next])) (found ++ [next])
      (Function.update parents next (some (some id))) := by
  have hdist := dist_next hs hstep hnew
  have hnear : ∀ v ∈ found ++ [next], dist step source v ≤ dist step source next := fun v hv =>
    (mem_append.mp hv).elim (fun hv => hdist ▸ hs.near id mem_cons_self v hv)
      fun hv => (mem_singleton.mp hv ▸ Nat.le_refl _)
  have hid := head_mem hs
  constructor
  · rw [hs.split, append_assoc, cons_append]
  · intro v
    by_cases hv : v = next
    · simp [hv]
    · simp [hv, hs.mem]
  · exact nodup_append.mpr ⟨hs.nodup, nodup_singleton _, fun u hu v hv huv =>
      hnew (mem_singleton.mp hv ▸ huv ▸ hu)⟩
  · exact mem_append_left _ hs.begins
  · intro v hv
    by_cases heq : v = next
    · simp [heq] at hv
    · exact hs.root v (by simpa [heq] using hv)
  · intro u v hv
    by_cases heq : v = next
    · subst heq
      obtain rfl : id = u := by simpa using hv
      exact ⟨hstep, mem_append_left _ hid, hdist⟩
    · obtain ⟨huv, hu, hlen⟩ := hs.parent u v (by simpa [heq] using hv)
      exact ⟨huv, mem_append_left _ hu, hlen⟩
  · refine pairwise_append.mpr ⟨hs.sorted, pairwise_singleton _ _, fun u hu v hv => ?_⟩
    rw [mem_singleton.mp hv]
    exact hnear u (mem_append_left _ hu)
  · intro q hq v hv
    have hle : dist step source id ≤ dist step source q := by
      rcases mem_append.mp (cons_append ▸ hq) with hq | hq
      · exact dist_head_le hs hq
      · rw [mem_singleton.mp hq, hdist]
        exact Nat.le_succ _
    exact (hnear v hv).trans (hdist ▸ Nat.succ_le_succ hle)
  · intro v hv
    have hlt := hs.size id hid
    have hle := hnear v hv
    rw [length_append, length_singleton]
    omega
  · exact fun u hu v huv => mem_append_left _ (hs.closed u hu v huv)

/-- With all that its targets lead to found, the head has been looked at. -/
lemma Searched.advance (hs : Searched step source popped (id :: queue) found parents)
    (h : ∀ v, step id v → v ∈ found) : Searched step source (popped ++ [id]) queue found parents := by
  refine { hs with split := ?_, near := ?_, closed := ?_ }
  · rw [hs.split, append_assoc, singleton_append]
  · exact fun q hq => hs.near q (mem_cons_of_mem id hq)
  intro u hu
  rcases mem_append.mp hu with hu | hu
  · exact hs.closed u hu
  · exact mem_singleton.mp hu ▸ h

end Distances

section Runs
variable [DecidableEq α] {targets : α → List α} {allowed : α → Bool} {source goal : α}
variable {popped found : List α} {id : α} {s : Search α}

/-- Looking at the targets of the head finds all that are allowed. -/
lemma discovers {l : List α} (hl : l ⊆ targets id)
    (hs : Searched (Step targets allowed) source popped (id :: s.queue) found s.parents) :
    ∃ found', Searched (Step targets allowed) source popped
        (id :: (l.foldl (discover allowed id) s).queue) found' (l.foldl (discover allowed id) s).parents ∧
      found ⊆ found' ∧ ∀ v ∈ l, allowed v → v ∈ found' := by
  induction l generalizing s found with
  | nil => exact ⟨found, hs, Subset.refl _, nofun⟩
  | cons next l ih =>
    have hmem := (cons_subset.mp hl).1
    replace hl := (cons_subset.mp hl).2
    rw [foldl_cons, discover]
    split
    · rename_i hold
      obtain ⟨found', hs', hsub, hall⟩ := ih hl hs
      exact ⟨found', hs', hsub, forall_mem_cons.mpr ⟨fun _ => hsub ((hs.mem next).mp hold), hall⟩⟩
    rename_i hnew
    split
    · rename_i hallow
      obtain ⟨found', hs', hsub, hall⟩ := ih (s := ⟨_, _⟩) hl
        (hs.insert ⟨hmem, hallow⟩ fun hfound => hnew ((hs.mem next).mpr hfound))
      exact ⟨found', hs', fun v hv => hsub (mem_append_left _ hv),
        forall_mem_cons.mpr ⟨fun _ => hsub (mem_append_right _ mem_cons_self), hall⟩⟩
    · rename_i hallow
      obtain ⟨found', hs', hsub, hall⟩ := ih hl hs
      exact ⟨found', hs', hsub, forall_mem_cons.mpr ⟨fun h => absurd h hallow, hall⟩⟩

/-- The goal cannot be reached, or this is a shortest way to it. -/
def Answers (step : α → α → Prop) (source goal : α) : Option (List α) → Prop
  | none => ∀ path, ¬ Leads step source path goal
  | some path => Leads step source path goal ∧ ∀ other, Leads step source other goal → path.length ≤ other.length

lemma run_spec {nodes : List α} (hsrc : source ∈ nodes) (hnodes : ∀ u, targets u ⊆ nodes)
    {fuel turns : Nat} (hfuel : nodes.length ≤ fuel) (hturns : nodes.length < popped.length + turns)
    (hs : Searched (Step targets allowed) source popped s.queue found s.parents) (hgoal : goal ∉ popped) :
    ∃ answer, run targets allowed goal fuel turns s = some answer ∧
      Answers (Step targets allowed) source goal answer := by
  have hle {popped found : List α} {s : Search α}
      (hs : Searched (Step targets allowed) source popped s.queue found s.parents) :
      found.length ≤ nodes.length := by
    refine (hs.nodup.subperm fun v hv => ?_).length_le
    obtain ⟨parent, hp⟩ := Option.isSome_iff_exists.mp ((hs.mem v).mpr hv)
    cases parent with
    | none => exact hs.root v hp ▸ hsrc
    | some u => exact hnodes u (hs.parent u v hp).1.1
  induction turns generalizing popped found s with
  | zero =>
    have hlen := congrArg length hs.split
    have hfound := hle hs
    rw [length_append] at hlen
    omega
  | succ turns ih =>
    rw [run]
    split
    · rename_i hq
      refine ⟨none, rfl, fun path hpath => ?_⟩
      rcases found_or_waits hs hpath with hfound | ⟨q, hwait, -⟩
      · rw [hs.split, hq, append_nil] at hfound
        exact hgoal hfound
      · rw [hq] at hwait
        cases hwait
    · rename_i id queue hq
      rw [hq] at hs
      split
      · rename_i heq
        subst heq
        obtain ⟨path, htrace, hleads, hlen⟩ := trace_spec hs (head_mem hs)
          ((hs.size id (head_mem hs)).trans_le ((hle (hq ▸ hs)).trans hfuel))
        refine ⟨some path.reverse, by rw [htrace]; rfl, hleads, fun other hother => ?_⟩
        rw [length_reverse, hlen]
        exact dist_lt hother
      · rename_i hne
        obtain ⟨found', hs', -, hall⟩ := discovers (s := { s with queue }) (Subset.refl _) hs
        refine ih ?_ (hs'.advance fun v hv => hall v hv.1 hv.2) ?_
        · rw [length_append, length_singleton]
          omega
        intro hmem
        rcases mem_append.mp hmem with hmem | hmem
        · exact hgoal hmem
        · exact hne (mem_singleton.mp hmem).symm

lemma searched_start : Searched (Step targets allowed) source [] (start source).queue [source]
    (start source).parents := by
  refine ⟨rfl, fun v => ?_, nodup_singleton _, mem_cons_self, fun v hv => ?_, fun u v hv => ?_,
    pairwise_singleton _ _, ?_, ?_, nofun⟩
  · by_cases hv : v = source <;> simp [start, hv]
  · by_contra hne
    simp [start, hne] at hv
  · by_cases heq : v = source <;> simp [start, heq] at hv
  · simp [start]
  · simp [dist_source]

end Runs

end BreadthFirst
