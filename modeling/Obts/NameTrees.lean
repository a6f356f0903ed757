import Mathlib.Order.Basic
import Obts.InsertionOrder

/-!
# Trees of names

Trees whose nodes have named children, and the plans by which they are written. A tree is canonical when
the children of every node are sorted by name and no subtree is without a leaf; then it is determined
by what stands at each path. Writing a plan into a tree and building the tree anew from all that is to
stand in it come to the same.
-/
namespace NameTrees

open InsertionOrder Option
open List (cons_ne_nil map_append map_cons mem_cons mem_cons_of_mem mem_cons_self mem_map mem_map_of_mem
    nodup_append nodup_cons nodup_nil)

section Maps
variable {κ β : Type} [DecidableEq κ]

lemma valueAt_perm {m m' : List (κ × β)} (hm : (m.map Prod.fst).Nodup) (h : m.Perm m') (k : κ) :
    valueAt m k = valueAt m' k := by
  have hm' : (m'.map Prod.fst).Nodup := (h.map Prod.fst).nodup_iff.mp hm
  cases hv : valueAt m' k with
  | none =>
    rw [valueAt_eq_none] at hv ⊢
    exact fun hmem => hv ((h.map Prod.fst).mem_iff.mp hmem)
  | some v =>
    rw [valueAt_eq_some hm'] at hv
    rw [valueAt_eq_some hm]
    exact h.mem_iff.mpr hv

lemma valueAt_cons (e : κ × β) (m : List (κ × β)) (k : κ) :
    valueAt (e :: m) k = if e.1 = k then some e.2 else valueAt m k := by
  by_cases h : e.1 = k
  · simp [valueAt, h]
  · simp [valueAt, h]

/-- Every entry of one map put into another. -/
def setAll (m : List (κ × β)) (changes : List (κ × β)) : List (κ × β) :=
  changes.foldl (fun m e => set m e.1 e.2) m

lemma nodup_setAll {m changes : List (κ × β)} (hm : (m.map Prod.fst).Nodup) :
    ((setAll m changes).map Prod.fst).Nodup := by
  induction changes generalizing m with
  | nil => exact hm
  | cons e changes ih => exact ih (nodup_keys_set hm e.1 e.2)

lemma valueAt_setAll {m changes : List (κ × β)} (hchan : (changes.map Prod.fst).Nodup)
    (k : κ) : valueAt (setAll m changes) k = (valueAt changes k).or (valueAt m k) := by
  induction changes generalizing m with
  | nil => rfl
  | cons e changes ih =>
    rw [map_cons, nodup_cons] at hchan
    have hrest := ih (m := set m e.1 e.2) hchan.2
    refine hrest.trans ?_
    rw [valueAt_cons]
    by_cases hk : e.1 = k
    · subst hk
      rw [valueAt_eq_none.mpr hchan.1, valueAt_set_self, if_pos rfl]
      rfl
    · rw [valueAt_set_of_ne m e.2 (Ne.symm hk), if_neg hk]

end Maps

inductive Tree (κ β : Type) where
  | leaf (value : β)
  | node (children : List (κ × Tree κ β))

variable {κ β : Type} [LinearOrder κ] {t : Tree κ β} {path : List κ} {entries : List (List κ × β)}

namespace Tree

/-- What stands at a path. -/
def lookup : Tree κ β → List κ → Option β
  | .leaf value, [] => some value
  | .leaf _, _ :: _ => none
  | .node _, [] => none
  | .node children, k :: path =>
    match valueAt children k with
    | none => none
    | some child => lookup child path

/-- Some path leads to a leaf. -/
def HasLeaf (t : Tree κ β) : Prop := ∃ path, t.lookup path ≠ none

inductive Canonical : Tree κ β → Prop where
  | leaf (value : β) : Canonical (.leaf value)
  | node {children : List (κ × Tree κ β)} (sorted : (children.map Prod.fst).Pairwise (· < ·))
      (canonical : ∀ c ∈ children, Canonical c.2)
      (hasLeaf : ∀ c ∈ children, HasLeaf c.2) : Canonical (.node children)

lemma lookup_node_cons (children : List (κ × Tree κ β)) (k : κ) (path : List κ) :
    (Tree.node children).lookup (k :: path) = (valueAt children k).bind fun child => child.lookup path := by
  rw [lookup]
  cases valueAt children k with
  | none | some => rfl

/-- Nothing stands below a leaf. -/
lemma eq_nil_of_lookup {more : List κ} (hpath : t.lookup path ≠ none)
    (hmore : t.lookup (path ++ more) ≠ none) : more = [] := by
  induction path generalizing t with
  | nil =>
    cases t with
    | leaf value =>
      cases more with
      | nil => rfl
      | cons k more => exact absurd rfl hmore
    | node children => exact absurd rfl hpath
  | cons k path ih =>
    cases t with
    | leaf value => exact absurd rfl hpath
    | node children =>
      rw [List.cons_append] at hmore
      rw [lookup_node_cons] at hpath hmore
      cases hchild : valueAt children k with
      | none =>
        rw [hchild] at hpath
        exact absurd rfl hpath
      | some child =>
        rw [hchild] at hpath hmore
        exact ih hpath hmore

section Sorted
variable {children children' : List (κ × Tree κ β)}

lemma nodup_of_sorted (h : (children.map Prod.fst).Pairwise (· < ·)) :
    (children.map Prod.fst).Nodup := h.imp ne_of_lt

/-- Sorted lists of children with the same members are the same. -/
lemma eq_of_sorted (h : (children.map Prod.fst).Pairwise (· < ·)) (h' : (children'.map Prod.fst).Pairwise (· < ·))
    (hmem : ∀ c, c ∈ children ↔ c ∈ children') : children = children' := by
  have hnodup := (nodup_of_sorted h).of_map
  have hnodup' := (nodup_of_sorted h').of_map
  have hperm : children.Perm children' := (List.perm_ext_iff_of_nodup hnodup hnodup').mpr hmem
  rw [List.pairwise_map] at h h'
  refine hperm.eq_of_pairwise ?_ h h'
  intro a b _ _ hab hba
  exact absurd (hab.trans hba) (lt_irrefl _)

end Sorted

/-- A canonical tree is determined by what stands at each path. -/
lemma Canonical.ext {t' : Tree κ β} (h : Canonical t) (h' : Canonical t')
    (hsame : ∀ path, t.lookup path = t'.lookup path) : t = t' := by
  induction h generalizing t' with
  | leaf value =>
    cases h' with
    | leaf value' => exact congrArg Tree.leaf (Option.some.inj (hsame []))
    | node => cases hsame []
  | node hsort hcan hleaf ih =>
    rename_i children
    cases h' with
    | leaf value' => cases hsame []
    | node hsort' hcan' hleaf' =>
      rename_i children'
      -- the children of one name are the same tree
      have hchild : ∀ k child child', (k, child) ∈ children → (k, child') ∈ children' →
          child = child' := by
        intro k child child' hmem hmem'
        refine ih (k, child) hmem (hcan' (k, child') hmem') fun path => ?_
        have hpath := hsame (k :: path)
        rwa [lookup_node_cons, lookup_node_cons, (valueAt_eq_some (nodup_of_sorted hsort)).mpr hmem,
          (valueAt_eq_some (nodup_of_sorted hsort')).mpr hmem'] at hpath
      refine congrArg Tree.node (eq_of_sorted hsort hsort' ?_)
      rintro ⟨k, child⟩
      constructor
      · intro hmem
        obtain ⟨path, hpath⟩ := hleaf (k, child) hmem
        have hlook := hsame (k :: path)
        rw [lookup_node_cons, lookup_node_cons, (valueAt_eq_some (nodup_of_sorted hsort)).mpr hmem] at hlook
        cases hother : valueAt children' k with
        | none =>
          rw [hother] at hlook
          exact absurd hlook hpath
        | some child' =>
          have hmem' := (valueAt_eq_some (nodup_of_sorted hsort')).mp hother
          exact hchild k child child' hmem hmem' ▸ hmem'
      · intro hmem'
        obtain ⟨path, hpath⟩ := hleaf' (k, child) hmem'
        have hlook := hsame (k :: path)
        rw [lookup_node_cons, lookup_node_cons, (valueAt_eq_some (nodup_of_sorted hsort')).mpr hmem'] at hlook
        cases hother : valueAt children k with
        | none =>
          rw [hother] at hlook
          exact absurd hlook.symm hpath
        | some child' =>
          have hmem := (valueAt_eq_some (nodup_of_sorted hsort)).mp hother
          exact hchild k child' child hmem hmem' ▸ hmem

mutual

/-- The leaves with their paths. -/
def flatten : Tree κ β → List (List κ × β)
  | .leaf value => [([], value)]
  | .node children => flattenAll children

def flattenAll : List (κ × Tree κ β) → List (List κ × β)
  | [] => []
  | (k, child) :: children =>
    (flatten child).map (fun e => (k :: e.1, e.2)) ++ flattenAll children

end

mutual

lemma Canonical.mem_flatten : ∀ {t : Tree κ β}, Canonical t → ∀ {path value},
    (path, value) ∈ flatten t ↔ t.lookup path = some value
  | .leaf value, _, path, value' => by
    cases path with
    | nil => simp [flatten, lookup, eq_comm]
    | cons k path => simp [flatten, lookup]
  | .node children, .node hsort hcan _, path, value => by
    rw [flatten, mem_flattenAll hcan]
    cases path with
    | nil => simp [lookup]
    | cons k path =>
      rw [lookup_node_cons, bind_eq_some_iff]
      constructor
      · rintro ⟨c, hc, rest, hpath, hlook⟩
        obtain ⟨rfl, rfl⟩ := List.cons.inj hpath
        exact ⟨c.2, (valueAt_eq_some (nodup_of_sorted hsort)).mpr hc, hlook⟩
      · rintro ⟨child, hchild, hlook⟩
        exact ⟨(k, child), (valueAt_eq_some (nodup_of_sorted hsort)).mp hchild, path, rfl, hlook⟩

lemma mem_flattenAll : ∀ {children : List (κ × Tree κ β)}, (∀ c ∈ children, Canonical c.2) → ∀ {path value},
    (path, value) ∈ flattenAll children ↔ ∃ c ∈ children, ∃ rest, path = c.1 :: rest ∧ c.2.lookup rest = some value
  | [], _, path, value => by simp [flattenAll]
  | (k, child) :: children, hcan, path, value => by
    have hchild := hcan (k, child) mem_cons_self
    have hrest : ∀ c ∈ children, Canonical c.2 := fun c hc =>
      hcan c (mem_cons_of_mem _ hc)
    rw [flattenAll, List.mem_append, mem_flattenAll hrest]
    constructor
    · rintro (hmem | ⟨c, hc, hpath⟩)
      · obtain ⟨e, he, heq⟩ := mem_map.mp hmem
        cases heq
        exact ⟨(k, child), mem_cons_self, e.1, rfl, hchild.mem_flatten.mp he⟩
      · exact ⟨c, mem_cons_of_mem _ hc, hpath⟩
    · rintro ⟨c, hc, rest, rfl, hlook⟩
      rcases mem_cons.mp hc with rfl | hc
      · exact .inl (mem_map.mpr ⟨(rest, value), hchild.mem_flatten.mpr hlook, rfl⟩)
      · exact .inr ⟨c, hc, rest, rfl, hlook⟩

end

mutual

lemma Canonical.nodup_flatten : ∀ {t : Tree κ β}, t.Canonical → (t.flatten.map Prod.fst).Nodup
  | .leaf _, _ => List.nodup_singleton _
  | .node _, .node hsort hcan _ =>
    nodup_flattenAll (nodup_of_sorted hsort) hcan

lemma nodup_flattenAll : ∀ {children : List (κ × Tree κ β)}, (children.map Prod.fst).Nodup →
    (∀ c ∈ children, Canonical c.2) → ((flattenAll children).map Prod.fst).Nodup
  | [], _, _ => nodup_nil
  | (k, child) :: children, hnodup, hcan => by
    rw [map_cons, nodup_cons] at hnodup
    have hrest : ∀ c ∈ children, Canonical c.2 := fun c hc =>
      hcan c (mem_cons_of_mem _ hc)
    have hchild := (hcan (k, child) mem_cons_self).nodup_flatten
    rw [flattenAll, map_append, List.map_map]
    refine nodup_append.mpr ⟨?_, nodup_flattenAll hnodup.2 hrest, ?_⟩
    · have hmap := hchild.map (List.cons_injective (a := k))
      rwa [List.map_map] at hmap
    rintro path hpath path' hpath' rfl
    obtain ⟨e, -, rfl⟩ := mem_map.mp hpath
    obtain ⟨e', he', heq⟩ := mem_map.mp hpath'
    obtain ⟨c, hc, rest, hrest', -⟩ := (mem_flattenAll hrest).mp he'
    have hk : k = c.1 := (List.cons.inj (heq.symm.trans hrest')).1
    have hname : c.1 ∈ children.map Prod.fst := mem_map_of_mem hc
    exact hnodup.1 (hk ▸ hname)

end

end Tree

/-- Leaves and further plans to write, by name. -/
inductive Plan (κ β : Type) where
  | mk (leaves : List (κ × β)) (plans : List (κ × Plan κ β))

namespace Plan

def empty : Plan κ β := .mk [] []

def insert : Plan κ β → List κ → β → Plan κ β
  | plan, [], _ => plan
  | .mk leaves plans, [k], value => .mk (set leaves k value) plans
  | .mk leaves plans, k :: path, value =>
    .mk leaves (set plans k (insert ((valueAt plans k).getD empty) path value))

/-- Plans for the names of a path, with nothing to write yet. -/
def enter : Plan κ β → List κ → Plan κ β
  | plan, [] => plan
  | .mk leaves plans, k :: path =>
    .mk leaves (set plans k (enter ((valueAt plans k).getD empty) path))

def lookup : Plan κ β → List κ → Option β
  | _, [] => none
  | .mk leaves _, [k] => valueAt leaves k
  | .mk _ plans, k :: path =>
    match valueAt plans k with
    | none => none
    | some plan => lookup plan path

/-- The plan of all entries. -/
def ofEntries (entries : List (List κ × β)) : Plan κ β :=
  entries.foldl (fun plan e => plan.insert e.1 e.2) empty

def sortNames {γ : Type} (children : List (κ × γ)) : List (κ × γ) :=
  children.insertionSort fun a b => a.1 ≤ b.1

def asLeaves (leaves : List (κ × β)) : List (κ × Tree κ β) :=
  leaves.map fun e => (e.1, .leaf e.2)

mutual

/-- A tree with what the plan has to write and nothing else. -/
def build : Plan κ β → Tree κ β
  | .mk leaves plans => .node (sortNames (buildAll plans ++ asLeaves leaves))

def buildAll : List (κ × Plan κ β) → List (κ × Tree κ β)
  | [] => []
  | (k, plan) :: plans => (k, build plan) :: buildAll plans

end

def writeLeaves (children : List (κ × Tree κ β)) : List (κ × β) → Option (List (κ × Tree κ β))
  | [] => some children
  | (k, value) :: leaves =>
    match valueAt children k with
    | some (.node _) => none
    | _ => writeLeaves (set children k (.leaf value)) leaves

mutual

/-- The plan written into a tree with these children. None stands for an error: a plan does not go
through a leaf, and a leaf does not replace a subtree. -/
def write : Plan κ β → List (κ × Tree κ β) → Option (Tree κ β)
  | .mk leaves plans, children => do
    let children ← writePlans plans children
    let children ← writeLeaves children leaves
    return .node (sortNames children)

def writePlans : List (κ × Plan κ β) → List (κ × Tree κ β) → Option (List (κ × Tree κ β))
  | [], children => some children
  | (k, plan) :: plans, children =>
    match valueAt children k with
    | some (.leaf _) => none
    | some (.node below) => do
      let child ← write plan below
      writePlans plans (set children k child)
    | none => do
      let child ← write plan []
      writePlans plans (set children k child)

end

section Names
variable {γ : Type} {children : List (κ × γ)}

lemma sortNames_perm (children : List (κ × γ)) : (sortNames children).Perm children :=
  List.perm_insertionSort _ children

lemma sorted_sortNames (h : (children.map Prod.fst).Nodup) :
    ((sortNames children).map Prod.fst).Pairwise (· < ·) := by
  have htotal : Std.Total fun a b : κ × γ => a.1 ≤ b.1 := ⟨fun a b => le_total a.1 b.1⟩
  have htrans : IsTrans (κ × γ) fun a b => a.1 ≤ b.1 := ⟨fun _ _ _ => le_trans⟩
  have hsort : ((sortNames children).map Prod.fst).Pairwise (· ≤ ·) :=
    List.pairwise_map.mpr (List.pairwise_insertionSort _ children)
  have hnodup : ((sortNames children).map Prod.fst).Nodup :=
    ((sortNames_perm children).map Prod.fst).nodup_iff.mpr h
  exact (hsort.and hnodup).imp fun h => lt_of_le_of_ne h.1 h.2

lemma valueAt_sortNames (h : (children.map Prod.fst).Nodup) (k : κ) :
    valueAt (sortNames children) k = valueAt children k :=
  (valueAt_perm h (sortNames_perm children).symm k).symm

end Names

@[simp] lemma lookup_nil (plan : Plan κ β) : plan.lookup [] = none := by
  cases plan
  rfl

lemma lookup_singleton (leaves : List (κ × β)) (plans : List (κ × Plan κ β)) (k : κ) :
    (Plan.mk leaves plans).lookup [k] = valueAt leaves k := rfl

lemma lookup_cons (leaves : List (κ × β)) (plans : List (κ × Plan κ β)) (k : κ) (hpath : path ≠ []) :
    (Plan.mk leaves plans).lookup (k :: path) = (valueAt plans k).bind fun plan => plan.lookup path := by
  cases path with
  | nil => exact absurd rfl hpath
  | cons k' path =>
    have hmatch : (Plan.mk leaves plans).lookup (k :: k' :: path)
        = match valueAt plans k with
          | none => none
          | some plan => plan.lookup (k' :: path) := rfl
    rw [hmatch]
    cases valueAt plans k with
    | none | some => rfl

lemma insert_cons (leaves : List (κ × β)) (plans : List (κ × Plan κ β)) (k : κ)
    (hpath : path ≠ []) (value : β) : (Plan.mk leaves plans).insert (k :: path) value
      = .mk leaves (set plans k (((valueAt plans k).getD empty).insert path value)) := by
  cases path with
  | nil => exact absurd rfl hpath
  | cons k' path => rfl

lemma lookup_empty (path : List κ) : (empty : Plan κ β).lookup path = none := by
  cases path with
  | nil => rfl
  | cons k path =>
    cases path with
    | nil | cons => rfl

lemma lookup_insert (hpath : path ≠ []) (plan : Plan κ β) (value : β) (q : List κ) :
    (plan.insert path value).lookup q = if q = path then some value else plan.lookup q := by
  induction path generalizing plan q with
  | nil => exact absurd rfl hpath
  | cons k path ih =>
    obtain ⟨leaves, plans⟩ := plan
    cases q with
    | nil => rw [lookup_nil, lookup_nil, if_neg (cons_ne_nil k path).symm]
    | cons k' rest =>
      by_cases hnil : path = []
      · subst hnil
        by_cases hrest : rest = []
        · subst hrest
          rw [insert, lookup_singleton, lookup_singleton]
          by_cases hk : k' = k
          · subst hk
            rw [valueAt_set_self, if_pos rfl]
          · rw [valueAt_set_of_ne leaves value hk, if_neg (by simpa using hk)]
        · rw [insert, lookup_cons leaves plans k' hrest, lookup_cons _ plans k' hrest, if_neg]
          rintro h
          exact hrest (List.cons.inj h).2
      · rw [insert_cons leaves plans k hnil]
        by_cases hrest : rest = []
        · subst hrest
          rw [lookup_singleton, lookup_singleton, if_neg]
          rintro h
          exact hnil (List.cons.inj h).2.symm
        rw [lookup_cons leaves _ k' hrest, lookup_cons leaves plans k' hrest]
        by_cases hk : k' = k
        · subst hk
          rw [valueAt_set_self, bind_some, ih hnil]
          by_cases hsame : rest = path
          · rw [if_pos hsame, if_pos (by rw [hsame])]
          rw [if_neg hsame, if_neg (by simpa using hsame)]
          cases valueAt plans k' with
          | none => exact lookup_empty rest
          | some plan => rfl
        · rw [valueAt_set_of_ne plans _ hk, if_neg (fun h => hk (List.cons.inj h).1)]

/-- Names are distinct, and every plan has something to write. -/
inductive Sound : Plan κ β → Prop where
  | mk {leaves : List (κ × β)} {plans : List (κ × Plan κ β)}
      (leafNames : (leaves.map Prod.fst).Nodup) (planNames : (plans.map Prod.fst).Nodup)
      (sound : ∀ p ∈ plans, Sound p.2)
      (hasLeaf : ∀ p ∈ plans, ∃ path, p.2.lookup path ≠ none) : Sound (.mk leaves plans)

lemma sound_empty : Sound (empty : Plan κ β) :=
  .mk nodup_nil nodup_nil (by simp) (by simp)

lemma Sound.insert {plan : Plan κ β} (h : Sound plan) (path : List κ) (value : β) :
    Sound (plan.insert path value) := by
  induction path generalizing plan with
  | nil =>
    cases plan
    exact h
  | cons k path ih =>
    obtain ⟨leafNames, planNames, sound, hasLeaf⟩ := h
    rename_i leaves plans
    by_cases hnil : path = []
    · subst hnil
      exact .mk (nodup_keys_set leafNames k value) planNames sound hasLeaf
    rw [insert_cons leaves plans k hnil]
    have hbelow : Sound ((valueAt plans k).getD empty) := by
      cases hplan : valueAt plans k with
      | none => exact sound_empty
      | some plan => exact sound (k, plan) ((valueAt_eq_some planNames).mp hplan)
    refine .mk leafNames (nodup_keys_set planNames k _) ?_ ?_
    · rintro p hp
      rcases mem_set.mp hp with rfl | ⟨-, hp⟩
      · exact ih hbelow
      · exact sound p hp
    rintro p hp
    rcases mem_set.mp hp with rfl | ⟨-, hp⟩
    · refine ⟨path, ?_⟩
      rw [lookup_insert hnil, if_pos rfl]
      exact some_ne_none value
    · exact hasLeaf p hp

lemma sound_ofEntries (entries : List (List κ × β)) : Sound (ofEntries entries) := by
  have hfold : ∀ plan : Plan κ β, Sound plan →
      Sound (entries.foldl (fun plan e => plan.insert e.1 e.2) plan) := by
    induction entries with
    | nil => exact fun plan hplan => hplan
    | cons e entries ih => exact fun plan hplan => ih _ (hplan.insert e.1 e.2)
  exact hfold empty sound_empty

/-- A plan made of a map holds what the map holds. -/
lemma lookup_ofEntries (hnodup : (entries.map Prod.fst).Nodup) (hne : ∀ e ∈ entries, e.1 ≠ []) (path : List κ) :
    (ofEntries entries).lookup path = valueAt entries path := by
  have hfold : ∀ plan : Plan κ β, (entries.foldl (fun plan e => plan.insert e.1 e.2) plan).lookup path
        = (valueAt entries path).or (plan.lookup path) := by
    induction entries with
    | nil => exact fun plan => rfl
    | cons e entries ih =>
      intro plan
      rw [map_cons, nodup_cons] at hnodup
      rw [List.foldl_cons, ih hnodup.2 (fun e he => hne e (mem_cons_of_mem _ he)),
        lookup_insert (hne e mem_cons_self), valueAt_cons]
      by_cases hpath : e.1 = path
      · subst hpath
        rw [valueAt_eq_none.mpr hnodup.1, if_pos rfl, if_pos rfl]
        rfl
      · rw [if_neg (Ne.symm hpath), if_neg hpath]
  rw [ofEntries, hfold, lookup_empty, or_none]

/-- No leaf stands above another one. -/
def PrefixFree (plan : Plan κ β) : Prop :=
  ∀ path more, plan.lookup path ≠ none → plan.lookup (path ++ more) ≠ none → more = []

section Build
variable {leaves : List (κ × β)} {plans : List (κ × Plan κ β)}

lemma PrefixFree.plan (h : PrefixFree (.mk leaves plans)) {k : κ} {plan : Plan κ β}
    (hplan : valueAt plans k = some plan) : PrefixFree plan := by
  intro path more hpath hmore
  have hne : path ≠ [] := by
    rintro rfl
    exact hpath (lookup_nil plan)
  refine h (k :: path) more ?_ ?_
  · rwa [lookup_cons leaves plans k hne, hplan]
  · rwa [List.cons_append, lookup_cons leaves plans k (List.append_ne_nil_of_left_ne_nil hne more), hplan]

lemma names_buildAll (plans : List (κ × Plan κ β)) : (buildAll plans).map Prod.fst = plans.map Prod.fst := by
  induction plans with
  | nil => rfl
  | cons p plans ih => exact congrArg (p.1 :: ·) ih

lemma valueAt_buildAll (plans : List (κ × Plan κ β)) (k : κ) :
    valueAt (buildAll plans) k = (valueAt plans k).map build := by
  induction plans with
  | nil => rfl
  | cons p plans ih =>
    obtain ⟨k', plan⟩ := p
    rw [buildAll, valueAt_cons, valueAt_cons, ih]
    by_cases hk : k' = k
    · rw [if_pos hk, if_pos hk]
      rfl
    · rw [if_neg hk, if_neg hk]

omit [LinearOrder κ] in
lemma names_asLeaves (leaves : List (κ × β)) : (asLeaves leaves).map Prod.fst = leaves.map Prod.fst := by
  rw [asLeaves, List.map_map]
  rfl

lemma valueAt_asLeaves (leaves : List (κ × β)) (k : κ) :
    valueAt (asLeaves leaves) k = (valueAt leaves k).map Tree.leaf := by
  induction leaves with
  | nil => rfl
  | cons e leaves ih =>
    rw [asLeaves, map_cons, ← asLeaves, valueAt_cons, valueAt_cons, ih]
    by_cases hk : e.1 = k
    · rw [if_pos hk, if_pos hk]
      rfl
    · rw [if_neg hk, if_neg hk]

/-- A name is that of a leaf or of a plan. -/
lemma PrefixFree.names (h : PrefixFree (.mk leaves plans)) (hsound : Sound (.mk leaves plans)) :
    ((buildAll plans ++ asLeaves leaves).map Prod.fst).Nodup := by
  obtain ⟨leafNames, planNames, sound, hasLeaf⟩ := hsound
  rw [map_append, names_buildAll, names_asLeaves]
  refine nodup_append.mpr ⟨planNames, leafNames, ?_⟩
  rintro k hk k' hk' rfl
  obtain ⟨p, hp, rfl⟩ := mem_map.mp hk
  obtain ⟨path, hpath⟩ := hasLeaf p hp
  have hplan : valueAt plans p.1 = some p.2 := (valueAt_eq_some planNames).mpr hp
  have hne : path ≠ [] := by
    rintro rfl
    exact hpath (lookup_nil p.2)
  refine hne (h [p.1] path ?_ ?_)
  · exact fun hnone => valueAt_eq_none.mp hnone hk'
  · rwa [List.singleton_append, lookup_cons leaves plans p.1 hne, hplan]

end Build

/-- The tree that is built is canonical and holds what the plan holds. -/
lemma Sound.build {plan : Plan κ β} (h : Sound plan) (hfree : PrefixFree plan) :
    (build plan).Canonical ∧ ∀ path, (build plan).lookup path = plan.lookup path := by
  induction h with
  | mk leafNames planNames sound hasLeaf ih =>
    rename_i leaves plans
    have hnames := hfree.names (.mk leafNames planNames sound hasLeaf)
    have hplan : ∀ k plan, valueAt plans k = some plan →
        (Plan.build plan).Canonical ∧ ∀ path, (Plan.build plan).lookup path = plan.lookup path :=
      fun k plan hk => ih (k, plan) ((valueAt_eq_some planNames).mp hk) (hfree.plan hk)
    have hchild : ∀ k child, (k, child) ∈ buildAll plans ++ asLeaves leaves →
        (∃ plan, valueAt plans k = some plan ∧ child = Plan.build plan)
          ∨ ∃ value, child = Tree.leaf value := by
      intro k child hmem
      rcases List.mem_append.mp hmem with hmem | hmem
      · have hvalue := (valueAt_eq_some (names_buildAll plans ▸ planNames)).mpr hmem
        rw [valueAt_buildAll] at hvalue
        obtain ⟨plan, hk, rfl⟩ := map_eq_some_iff.mp hvalue
        exact .inl ⟨plan, hk, rfl⟩
      · obtain ⟨e, -, heq⟩ := mem_map.mp hmem
        exact .inr ⟨e.2, (Prod.mk.inj heq).2.symm⟩
    constructor
    · refine .node (sorted_sortNames hnames) ?_ ?_
      · rintro ⟨k, child⟩ hmem
        rcases hchild k child ((sortNames_perm _).mem_iff.mp hmem) with ⟨plan, hk, rfl⟩ | ⟨value, rfl⟩
        · exact (hplan k plan hk).1
        · exact .leaf value
      rintro ⟨k, child⟩ hmem
      rcases hchild k child ((sortNames_perm _).mem_iff.mp hmem) with ⟨plan, hk, rfl⟩ | ⟨value, rfl⟩
      · obtain ⟨path, hpath⟩ := hasLeaf (k, plan) ((valueAt_eq_some planNames).mp hk)
        exact ⟨path, by rwa [(hplan k plan hk).2]⟩
      · exact ⟨[], some_ne_none value⟩
    · intro path
      cases path with
      | nil =>
        rfl
      | cons k path =>
        rw [Plan.build, Tree.lookup_node_cons, valueAt_sortNames hnames, valueAt_append,
          valueAt_buildAll, valueAt_asLeaves]
        cases hk : valueAt plans k with
        | none =>
          cases path with
          | nil =>
            rw [lookup_singleton]
            cases valueAt leaves k with
            | none | some => rfl
          | cons k' path =>
            rw [lookup_cons leaves plans k (cons_ne_nil k' path), hk]
            cases valueAt leaves k with
            | none | some => rfl
        | some plan =>
          have hbelow := (hplan k plan hk).2 path
          cases path with
          | nil =>
            have hno : valueAt leaves k = none := by
              rw [valueAt_eq_none]
              intro hmem
              rw [map_append, names_buildAll, names_asLeaves] at hnames
              have hplans : k ∈ plans.map Prod.fst :=
                mem_map_of_mem ((valueAt_eq_some planNames).mp hk)
              exact (nodup_append.mp hnames).2.2 k hplans k hmem rfl
            rw [lookup_singleton, hno]
            exact hbelow.trans (lookup_nil plan)
          | cons k' path =>
            rw [lookup_cons leaves plans k (cons_ne_nil k' path), hk]
            exact hbelow

section Write
variable {children children' : List (κ × Tree κ β)}

/-- Leaves come to stand where no subtree stands. -/
lemma writeLeaves_spec {leaves : List (κ × β)} (hnodup : (leaves.map Prod.fst).Nodup)
    (hnames : (children.map Prod.fst).Nodup) (h : writeLeaves children leaves = some children') :
    (children'.map Prod.fst).Nodup ∧
      (∀ k, valueAt children' k = ((valueAt leaves k).map Tree.leaf).or (valueAt children k)) ∧
      ∀ k, k ∈ leaves.map Prod.fst → ∀ below, valueAt children k ≠ some (.node below) := by
  induction leaves generalizing children with
  | nil =>
    cases h
    exact ⟨hnames, fun k => rfl, by simp⟩
  | cons e leaves ih =>
    obtain ⟨k', value⟩ := e
    rw [map_cons, nodup_cons] at hnodup
    have hleaf : (∀ below, valueAt children k' ≠ some (.node below)) ∧
        writeLeaves (set children k' (.leaf value)) leaves = some children' := by
      rw [writeLeaves] at h
      split at h
      · cases h
      · rename_i hno
        exact ⟨hno, h⟩
    obtain ⟨hnot, hrest⟩ := hleaf
    obtain ⟨hnames', hvalue, hnode⟩ := ih hnodup.2 (nodup_keys_set hnames k' _) hrest
    refine ⟨hnames', fun k => ?_, fun k hk below => ?_⟩
    · rw [hvalue, valueAt_cons]
      by_cases hk : k' = k
      · subst hk
        rw [valueAt_eq_none.mpr hnodup.1, valueAt_set_self, if_pos rfl]
        rfl
      · rw [if_neg hk, valueAt_set_of_ne children _ (Ne.symm hk)]
    · rcases mem_cons.mp hk with rfl | hmem
      · exact hnot below
      have hne : k ≠ k' := by
        rintro rfl
        exact hnodup.1 hmem
      have hbelow := hnode k hmem below
      rwa [valueAt_set_of_ne children _ hne] at hbelow

/-- Every plan is written into the subtree of its name, or into nothing. -/
lemma writePlans_spec {plans : List (κ × Plan κ β)} (hnodup : (plans.map Prod.fst).Nodup)
    (hnames : (children.map Prod.fst).Nodup) (h : writePlans plans children = some children') :
    (children'.map Prod.fst).Nodup ∧ (∀ k, valueAt plans k = none → valueAt children' k = valueAt children k) ∧
      ∀ k plan, valueAt plans k = some plan → ∃ below child, write plan below = some child ∧
        valueAt children' k = some child ∧
        (valueAt children k = some (.node below) ∨ valueAt children k = none ∧ below = []) := by
  induction plans generalizing children with
  | nil =>
    cases h
    exact ⟨hnames, fun k _ => rfl, fun k plan hk => by cases hk⟩
  | cons p plans ih =>
    obtain ⟨k', plan'⟩ := p
    rw [map_cons, nodup_cons] at hnodup
    have hfirst : ∃ below child, write plan' below = some child ∧
        (valueAt children k' = some (.node below) ∨ valueAt children k' = none ∧ below = []) ∧
        writePlans plans (set children k' child) = some children' := by
      rw [writePlans] at h
      split at h
      · cases h
      · rename_i below hbelow
        obtain ⟨child, hchild, hrest⟩ := bind_eq_some_iff.mp h
        exact ⟨below, child, hchild, .inl hbelow, hrest⟩
      · rename_i hnone
        obtain ⟨child, hchild, hrest⟩ := bind_eq_some_iff.mp h
        exact ⟨[], child, hchild, .inr ⟨hnone, rfl⟩, hrest⟩
    obtain ⟨below, child, hchild, hbelow, hrest⟩ := hfirst
    obtain ⟨hnames', hsame, hwr⟩ := ih hnodup.2 (nodup_keys_set hnames k' child) hrest
    refine ⟨hnames', fun k hk => ?_, fun k plan hk => ?_⟩
    · rw [valueAt_cons] at hk
      split at hk
      · cases hk
      · rename_i hne
        rw [hsame k hk, valueAt_set_of_ne children child (Ne.symm hne)]
    · rw [valueAt_cons] at hk
      split at hk
      · rename_i heq
        subst heq
        cases hk
        refine ⟨below, child, hchild, ?_, hbelow⟩
        rw [hsame k' (valueAt_eq_none.mpr hnodup.1), valueAt_set_self]
      · rename_i hne
        obtain ⟨below, child, hchild, hvalue, hold⟩ := hwr k plan hk
        rw [valueAt_set_of_ne children _ (Ne.symm hne)] at hold
        exact ⟨below, child, hchild, hvalue, hold⟩

end Write

lemma eq_node_of_write {plan : Plan κ β} {children : List (κ × Tree κ β)}
    (h : write plan children = some t) : ∃ below, t = .node below := by
  cases plan
  obtain ⟨_, _, h⟩ := bind_eq_some_iff.mp h
  obtain ⟨_, _, h⟩ := bind_eq_some_iff.mp h
  exact ⟨_, (Option.some.inj h).symm⟩

lemma canonical_nil : (Tree.node [] : Tree κ β).Canonical :=
  .node List.Pairwise.nil (by simp) (by simp)

/-- Writing a plan gives a canonical tree that holds what the plan holds and, elsewhere, what the
tree held. -/
lemma Sound.write {plan : Plan κ β} (h : Sound plan) :
    ∀ {children : List (κ × Tree κ β)} {t : Tree κ β}, (Tree.node children).Canonical →
      write plan children = some t →
      t.Canonical ∧ ∀ path, t.lookup path = (plan.lookup path).or ((Tree.node children).lookup path) := by
  induction h with
  | mk leafNames planNames sound hasLeaf ih =>
    rename_i leaves plans
    intro children t hcanonical hwrite
    obtain ⟨children₁, hplans, hwrite⟩ := bind_eq_some_iff.mp hwrite
    obtain ⟨children₂, hleav, hwrite⟩ := bind_eq_some_iff.mp hwrite
    cases hwrite
    cases hcanonical with
    | node hsort hchil hhas =>
      have hnames := Tree.nodup_of_sorted hsort
      obtain ⟨hnames₁, hsame, hwr⟩ := writePlans_spec planNames hnames hplans
      obtain ⟨hnames₂, hvalue, hnode⟩ := writeLeaves_spec leafNames hnames₁ hleav
      have hplan : ∀ k plan, valueAt plans k = some plan → ∃ child,
          valueAt children₁ k = some child ∧ child.Canonical ∧ child.HasLeaf ∧
          (∃ below, child = .node below) ∧ ∀ path, child.lookup path = (plan.lookup path).or
            ((Tree.node children).lookup (k :: path)) := by
        intro k plan hk
        obtain ⟨below, child, hchild, hchild₁, hold⟩ := hwr k plan hk
        have hmem := (valueAt_eq_some planNames).mp hk
        have hbelow : (Tree.node below).Canonical := by
          rcases hold with hold | ⟨-, rfl⟩
          · exact hchil _ ((valueAt_eq_some hnames).mp hold)
          · exact canonical_nil
        obtain ⟨hcan, hlook⟩ := ih (k, plan) hmem hbelow hchild
        have hbase : ∀ path, (Tree.node below).lookup path
            = (Tree.node children).lookup (k :: path) := by
          intro path
          rw [Tree.lookup_node_cons]
          rcases hold with hold | ⟨hold, rfl⟩
          · rw [hold]
            rfl
          · rw [hold]
            cases path <;> rfl
        obtain ⟨path, hpath⟩ := hasLeaf (k, plan) hmem
        refine ⟨child, hchild₁, hcan, ⟨path, ?_⟩, eq_node_of_write hchild, fun path => ?_⟩
        · rw [hlook]
          intro hnone
          exact hpath (or_eq_none_iff.mp hnone).1
        · rw [hlook, hbase]
      have hchild : ∀ k child, valueAt children₂ k = some child →
          child.Canonical ∧ child.HasLeaf := by
        intro k child hk
        rw [hvalue] at hk
        cases hleaf : valueAt leaves k with
        | some value =>
          rw [hleaf] at hk
          cases hk
          exact ⟨.leaf value, [], some_ne_none value⟩
        | none =>
          rw [hleaf] at hk
          cases hp : valueAt plans k with
          | some plan =>
            obtain ⟨child', hchild', hcan, hleaf', -⟩ := hplan k plan hp
            cases hchild'.symm.trans hk
            exact ⟨hcan, hleaf'⟩
          | none =>
            have hmem := (valueAt_eq_some hnames).mp ((hsame k hp).symm.trans hk)
            exact ⟨hchil _ hmem, hhas _ hmem⟩
      constructor
      · refine .node (sorted_sortNames hnames₂) ?_ ?_
        · rintro ⟨k, child⟩ hmem
          exact (hchild k child ((valueAt_eq_some hnames₂).mpr ((sortNames_perm _).mem_iff.mp hmem))).1
        rintro ⟨k, child⟩ hmem
        exact (hchild k child ((valueAt_eq_some hnames₂).mpr ((sortNames_perm _).mem_iff.mp hmem))).2
      · intro path
        cases path with
        | nil =>
          rfl
        | cons k path =>
          rw [Tree.lookup_node_cons, valueAt_sortNames hnames₂, hvalue]
          cases hleaf : valueAt leaves k with
          | some value =>
            cases path with
            | nil =>
              rw [lookup_singleton, hleaf]
              rfl
            | cons k' path =>
              -- neither a plan nor a subtree has the name of a leaf
              have hmem : k ∈ leaves.map Prod.fst :=
                mem_map_of_mem ((valueAt_eq_some leafNames).mp hleaf)
              have hno : valueAt plans k = none := by
                cases hp : valueAt plans k with
                | none => rfl
                | some plan =>
                  obtain ⟨child, hchild₁, -, -, ⟨below, rfl⟩, -⟩ := hplan k plan hp
                  exact absurd hchild₁ (hnode k hmem below)
              rw [lookup_cons leaves plans k (cons_ne_nil k' path), hno, Tree.lookup_node_cons, ← hsame k hno]
              cases hold : valueAt children₁ k with
              | none => rfl
              | some child =>
                cases child with
                | leaf value => rfl
                | node below => exact absurd hold (hnode k hmem below)
          | none =>
            rw [map_none, none_or]
            cases hp : valueAt plans k with
            | some plan =>
              obtain ⟨child, hchild₁, -, -, -, hlook⟩ := hplan k plan hp
              rw [hchild₁, bind_some, hlook]
              cases path with
              | nil =>
                rw [lookup_nil, lookup_singleton, hleaf]
              | cons k' path =>
                rw [lookup_cons leaves plans k (cons_ne_nil k' path), hp]
                rfl
            | none =>
              have hpla : (Plan.mk leaves plans).lookup (k :: path) = none := by
                cases path with
                | nil => exact hleaf
                | cons k' path =>
                  rw [lookup_cons leaves plans k (cons_ne_nil k' path), hp]
                  rfl
              rw [hpla, none_or, Tree.lookup_node_cons, hsame k hp]

/-- Building from what a canonical tree holds gives the tree. -/
lemma build_ofEntries (hcan : t.Canonical) (hnodup : (entries.map Prod.fst).Nodup) (hne : ∀ e ∈ entries, e.1 ≠ [])
    (hsame : ∀ path, valueAt entries path = t.lookup path) : build (ofEntries entries) = t := by
  have hlook : ∀ path, (ofEntries entries).lookup path = t.lookup path := fun path =>
    (lookup_ofEntries hnodup hne path).trans (hsame path)
  have hfree : PrefixFree (ofEntries entries) := by
    intro path more hpath hmore
    rw [hlook] at hpath hmore
    exact Tree.eq_nil_of_lookup hpath hmore
  obtain ⟨hbuilt, hbuil⟩ := (sound_ofEntries entries).build hfree
  exact hbuilt.ext hcan fun path => (hbuil path).trans (hlook path)

end Plan

end NameTrees
