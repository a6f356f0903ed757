import Mathlib.Data.List.Nodup
import Mathlib.Data.List.Sort

/-!
# Insertion-ordered sets and maps

Sets and maps that remember insertion order, as lists: adding a present element or
setting a present key keeps its position. Arrays are sorted stably by a comparator.
-/
namespace InsertionOrder

open List

section Appended

variable {α β : Type*} {l : List α} {a : α} {p : α → Prop}

lemma forall_mem_concat : (∀ x ∈ l ++ [a], p x) ↔ (∀ x ∈ l, p x) ∧ p a := by
  rw [forall_mem_append, forall_mem_singleton]

lemma nodup_concat_of (h : l.Nodup) (ha : a ∉ l) : (l ++ [a]).Nodup := by
  simpa using (nodup_concat l a).mpr ⟨ha, h⟩

lemma nodup_map_concat {f : α → β} (h : (l.map f).Nodup) (ha : f a ∉ l.map f) : ((l ++ [a]).map f).Nodup := by
  rw [map_append, map_singleton]
  exact nodup_concat_of h ha

/-- Changing some elements leaves what the change does not touch. -/
lemma map_ite_eq [DecidablePred p] {f : α → α} {g : α → β} (hf : ∀ x, g (f x) = g x) :
    (l.map fun x => if p x then f x else x).map g = l.map g := by
  rw [map_map]
  refine map_congr_left fun x _ => ?_
  by_cases hx : p x
  · simp [hx, hf]
  · simp [hx]

end Appended

section Sets

variable {α : Type*} [DecidableEq α] {as s : List α} {x : α}

def add (s : List α) (a : α) : List α := if a ∈ s then s else s ++ [a]

def addAll (s as : List α) : List α := as.foldl add s

/-- The set of an array's elements. -/
def ofList (as : List α) : List α := addAll [] as

@[simp] lemma mem_add {a : α} : x ∈ add s a ↔ x ∈ s ∨ x = a := by
  by_cases h : a ∈ s
  · simp only [add, h, if_true]
    constructor
    · exact .inl
    rintro (hx | rfl)
    · exact hx
    · exact h
  · simp [add, h]

@[simp] lemma mem_addAll : x ∈ addAll s as ↔ x ∈ s ∨ x ∈ as := by
  induction as generalizing s with
  | nil => simp [addAll]
  | cons a as ih =>
    rw [show addAll s (a :: as) = addAll (add s a) as from rfl, ih, mem_add, mem_cons, or_assoc]

@[simp] lemma mem_ofList : x ∈ ofList as ↔ x ∈ as := by
  simp [ofList]

lemma nodup_add (h : s.Nodup) (a : α) : (add s a).Nodup := by
  rw [add]
  split
  · exact h
  · rename_i ha
    exact nodup_concat_of h ha

lemma nodup_addAll (h : s.Nodup) : (addAll s as).Nodup := by
  induction as generalizing s with
  | nil => exact h
  | cons a as ih => exact ih (nodup_add h a)

lemma nodup_ofList (as : List α) : (ofList as).Nodup := nodup_addAll nodup_nil

lemma ofList_of_nodup (h : as.Nodup) : ofList as = as := by
  have haddA : ∀ s : List α, (s ++ as).Nodup → addAll s as = s ++ as := by
    clear h
    induction as with
    | nil => exact fun s _ => (append_nil s).symm
    | cons a as ih =>
      intro s hs
      have hnew : a ∉ s := fun ha =>
        (nodup_append.mp hs).2.2 a ha a mem_cons_self rfl
      rw [show addAll s (a :: as) = addAll (add s a) as from rfl, add, if_neg hnew,
        ih (s ++ [a]) (by simpa using hs), append_assoc]
      rfl
  exact haddA [] h

end Sets

section Maps

variable {κ β : Type*} [DecidableEq κ] {m : List (κ × β)} {k k' : κ} {v : β} {values : List β}
  {key : β → κ}

def set (m : List (κ × β)) (k : κ) (v : β) : List (κ × β) :=
  if k ∈ m.map Prod.fst then m.map fun e => if e.1 = k then (k, v) else e
  else m ++ [(k, v)]

lemma mem_set {e : κ × β} : e ∈ set m k v ↔ e = (k, v) ∨ (e.1 ≠ k ∧ e ∈ m) := by
  by_cases h : k ∈ m.map Prod.fst
  · rw [set, if_pos h, mem_map]
    constructor
    · rintro ⟨x, hx, rfl⟩
      by_cases hk : x.1 = k
      · simp [hk]
      · simp [hk, hx]
    · rintro (rfl | ⟨hk, he⟩)
      · obtain ⟨x, hx, hxk⟩ := mem_map.mp h
        exact ⟨x, hx, by simp [hxk]⟩
      · exact ⟨e, he, by simp [hk]⟩
  · rw [set, if_neg h, mem_append, mem_singleton]
    constructor
    · rintro (he | rfl)
      · refine .inr ⟨?_, he⟩
        rintro rfl
        exact h (mem_map_of_mem he)
      · exact .inl rfl
    · rintro (rfl | ⟨_, he⟩)
      · exact .inr rfl
      · exact .inl he

lemma keys_set (m : List (κ × β)) (k : κ) (v : β) : (set m k v).map Prod.fst = add (m.map Prod.fst) k := by
  by_cases h : k ∈ m.map Prod.fst
  · rw [set, if_pos h, add, if_pos h, map_map]
    refine map_congr_left fun e _ => ?_
    by_cases hk : e.1 = k
    · simp [hk]
    · simp [hk]
  · rw [set, if_neg h, add, if_neg h, map_append]
    rfl

lemma nodup_keys_set (h : (m.map Prod.fst).Nodup) (k : κ) (v : β) : ((set m k v).map Prod.fst).Nodup := by
  rw [keys_set, add]
  split
  · exact h
  · rename_i hk
    exact nodup_concat_of h hk

/-- The value at a key. -/
def valueAt (m : List (κ × β)) (k : κ) : Option β := (m.find? fun e => e.1 = k).map Prod.snd

lemma valueAt_eq_none : valueAt m k = none ↔ k ∉ m.map Prod.fst := by
  rw [valueAt, Option.map_eq_none_iff, find?_eq_none, mem_map]
  constructor
  · rintro h ⟨e, he, rfl⟩
    simpa using h e he
  · intro h e he
    simpa using fun hk => h ⟨e, he, hk⟩

lemma mem_of_valueAt (h : valueAt m k = some v) : (k, v) ∈ m := by
  obtain ⟨e, hfind, rfl⟩ := Option.map_eq_some_iff.mp h
  have hkey : e.1 = k := by simpa using find?_some hfind
  subst hkey
  exact mem_of_find?_eq_some hfind

lemma valueAt_append (m m' : List (κ × β)) (k : κ) : valueAt (m ++ m') k = (valueAt m k).or (valueAt m' k) := by
  rw [valueAt, valueAt, valueAt, find?_append]
  cases m.find? fun e => decide (e.1 = k) <;> rfl

@[simp] lemma valueAt_set_self (m : List (κ × β)) (k : κ) (v : β) : valueAt (set m k v) k = some v := by
  cases hfind : (set m k v).find? fun e => e.1 = k with
  | none =>
    have hmem : (k, v) ∈ set m k v := mem_set.mpr (.inl rfl)
    have hkey := find?_eq_none.mp hfind (k, v) hmem
    simp at hkey
  | some e =>
    have hkey : e.1 = k := by simpa using find?_some hfind
    rcases mem_set.mp (mem_of_find?_eq_some hfind) with rfl | ⟨hne, -⟩
    · rw [valueAt, hfind]
      rfl
    · exact absurd hkey hne

lemma valueAt_set_of_ne (m : List (κ × β)) (v : β) (h : k' ≠ k) : valueAt (set m k v) k' = valueAt m k' := by
  rw [valueAt, valueAt, set]
  split
  · rw [find?_map, Option.map_map]
    have hkey : (fun e : κ × β => decide (e.1 = k')) ∘ (fun e => if e.1 = k then (k, v) else e)
        = fun e => decide (e.1 = k') := by
      funext e
      by_cases he : e.1 = k
      · simp [he]
      · simp [he]
    rw [hkey]
    cases hfind : m.find? fun e => e.1 = k' with
    | none => rfl
    | some e =>
      have he : e.1 = k' := by simpa using find?_some hfind
      have hne : e.1 ≠ k := he ▸ h
      simp [hne]
  · simp [Ne.symm h]

/-- A value after setting a key is the one that was set or was there before. -/
lemma valueAt_set_cases {w : β} (h : valueAt (set m k v) k' = some w) :
    k' = k ∧ w = v ∨ k' ≠ k ∧ valueAt m k' = some w := by
  by_cases hk : k' = k
  · subst hk
    rw [valueAt_set_self] at h
    exact .inl ⟨rfl, (Option.some.inj h).symm⟩
  · rw [valueAt_set_of_ne m v hk] at h
    exact .inr ⟨hk, h⟩

/-- Deleting a key. -/
def delete (m : List (κ × β)) (k : κ) : List (κ × β) := m.filter fun e => e.1 ≠ k

@[simp] lemma valueAt_delete_self (m : List (κ × β)) (k : κ) : valueAt (delete m k) k = none := by
  rw [valueAt_eq_none, delete]
  simp

lemma valueAt_delete_of_ne (m : List (κ × β)) (h : k' ≠ k) : valueAt (delete m k) k' = valueAt m k' := by
  rw [valueAt, valueAt, delete, find?_filter]
  congr 2
  funext e
  by_cases he : e.1 = k'
  · simp [he, h]
  · simp [he]

/-- The values of the map built from an array of keyed values. -/
def valuesBy (key : β → κ) (values : List β) : List β :=
  (values.foldl (fun m v => set m (key v) v) []).map Prod.snd

lemma valuesBy_of_nodup (h : (values.map key).Nodup) : valuesBy key values = values := by
  have hfold : ∀ (values done : List β), ((done ++ values).map key).Nodup →
      values.foldl (fun m v => set m (key v) v) (done.map fun v => (key v, v))
        = (done ++ values).map fun v => (key v, v) := by
    intro values
    induction values with
    | nil => simp
    | cons v values ih =>
      intro done hnodup
      have hassoc : done ++ v :: values = (done ++ [v]) ++ values := by simp
      have hfresh : key v ∉ (done.map fun v => (key v, v)).map Prod.fst := by
        intro hmem
        rw [map_append, map_cons] at hnodup
        rw [map_map] at hmem
        exact (nodup_append.mp hnodup).2.2 (key v) hmem (key v) mem_cons_self rfl
      rw [foldl_cons, set, if_neg hfresh, hassoc, ← ih (done ++ [v]) (hassoc ▸ hnodup)]
      simp
  have hvals : values.foldl (fun m v => set m (key v) v) [] = values.map fun v => (key v, v) :=
    hfold values [] h
  rw [valuesBy, hvals, map_map]
  exact map_id values

/-- Keys that occur once are found. -/
lemma find?_of_nodup (h : (values.map key).Nodup)
    (hv : v ∈ values) : values.find? (fun w => key w = key v) = some v := by
  cases hfind : values.find? fun w => key w = key v with
  | none => simpa using find?_eq_none.mp hfind v hv
  | some w =>
    have htest := find?_some hfind
    have hkey : key w = key v := of_decide_eq_true htest
    rw [inj_on_of_nodup_map h (mem_of_find?_eq_some hfind) hv hkey]

lemma valueAt_eq_some (hm : (m.map Prod.fst).Nodup) : valueAt m k = some v ↔ (k, v) ∈ m := by
  constructor
  · exact mem_of_valueAt
  intro h
  rw [valueAt, find?_of_nodup hm h]
  rfl

end Maps

section Updates

variable {α β : Type*} {p : α → Bool} {f : α → α} {g : α → β}

/-- Assigning to the first element that a `find` returns. -/
def updateFirst (p : α → Bool) (f : α → α) : List α → List α
  | [] => []
  | a :: as => if p a then f a :: as else a :: updateFirst p f as

lemma forall_mem_updateFirst {as : List α} {P : α → Prop}
    (h : ∀ a ∈ as, P a) (hf : ∀ a, P a → P (f a)) : ∀ a ∈ updateFirst p f as, P a := by
  induction as with
  | nil => simp [updateFirst]
  | cons b bs ih =>
    obtain ⟨hb, hbs⟩ := forall_mem_cons.mp h
    rw [updateFirst]
    split
    · exact forall_mem_cons.mpr ⟨hf b hb, hbs⟩
    · exact forall_mem_cons.mpr ⟨hb, ih hbs⟩

/-- A key and a test that the assignment keeps are the same before and after. -/
lemma map_filter_updateFirst {p q : α → Bool} (hq : ∀ a, q (f a) = q a) (hg : ∀ a, g (f a) = g a) (as : List α) :
    ((updateFirst p f as).filter q).map g = (as.filter q).map g := by
  induction as with
  | nil => rfl
  | cons a as ih =>
    rw [updateFirst]
    split
    · rw [filter_cons, filter_cons, hq a]
      split
      · rw [map_cons, map_cons, hg]
      · rfl
    · rw [filter_cons, filter_cons]
      split
      · rw [map_cons, map_cons, ih]
      · exact ih

lemma map_updateFirst (hg : ∀ a, g (f a) = g a) (as : List α) : (updateFirst p f as).map g = as.map g := by
  have h := @map_filter_updateFirst _ _ f g p (fun _ => true) (fun _ => rfl) hg as
  rwa [filter_true, filter_true] at h

/-- The search that led to the assignment finds the element as it is now. -/
lemma find?_updateFirst (hf : ∀ a, p (f a) = p a) (as : List α) :
    (updateFirst p f as).find? p = (as.find? p).map f := by
  induction as with
  | nil => rfl
  | cons a as ih =>
    by_cases ha : p a
    · rw [updateFirst, if_pos ha, find?_cons_of_pos ((hf a).trans ha), find?_cons_of_pos ha]
      rfl
    · rw [updateFirst, if_neg ha, find?_cons_of_neg ha, find?_cons_of_neg ha]
      exact ih

/-- Every element is related to its own state after the assignment. -/
lemma forall₂_updateFirst {R : α → α → Prop} (hrefl : ∀ a, R a a)
    (hf : ∀ a, R a (f a)) (as : List α) : List.Forall₂ R as (updateFirst p f as) := by
  induction as with
  | nil => exact .nil
  | cons a as ih =>
    rw [updateFirst]
    split
    · exact .cons (hf a) (forall₂_same.mpr fun b _ => hrefl b)
    · exact .cons (hrefl a) ih

end Updates

section Sorting

variable {α β : Type*} {cmp : α → α → Ordering} {as : List α}

/-- A stable sort by a comparator. -/
def sortBy (cmp : α → α → Ordering) (as : List α) : List α :=
  as.insertionSort fun a b => (cmp a b).isLE = true

lemma sortBy_perm (cmp : α → α → Ordering) (as : List α) : (sortBy cmp as).Perm as :=
  perm_insertionSort _ as

@[simp] lemma mem_sortBy {a : α} : a ∈ sortBy cmp as ↔ a ∈ as :=
  (sortBy_perm cmp as).mem_iff

lemma pairwise_sortBy (cmp : α → α → Ordering) [Std.TransCmp cmp] (as : List α) :
    (sortBy cmp as).Pairwise fun a b => (cmp a b).isLE := by
  have : Std.Total fun a b => (cmp a b).isLE = true := by
    refine ⟨fun a b => ?_⟩
    rw [@Std.OrientedCmp.eq_swap _ cmp _ b a]
    cases cmp a b <;> simp
  have : IsTrans α fun a b => (cmp a b).isLE = true :=
    ⟨fun _ _ _ => Std.TransCmp.isLE_trans⟩
  exact pairwise_insertionSort _ as

/-- What a page of sorted elements leaves out is not before its last one. -/
lemma mem_page [Std.TransCmp cmp] {n : Nat} {a last : α} (ha : a ∈ as)
    (hlast : ((sortBy cmp as).take n).getLast? = some last) : a ∈ (sortBy cmp as).take n ∨ (cmp last a).isLE := by
  have hmem : a ∈ sortBy cmp as := mem_sortBy.mpr ha
  have hsort := pairwise_sortBy cmp as
  rw [← take_append_drop n (sortBy cmp as)] at hmem hsort
  exact (mem_append.mp hmem).imp_right ((pairwise_append.mp hsort).2.2 last (mem_of_getLast? hlast) a)

/-- Fewer elements are after a later one. -/
lemma length_after_lt {κ : Type*} {cmp : κ → κ → Ordering} [Std.TransCmp cmp] {key : α → κ} {after : κ}
    {last : α} (hlast : last ∈ as) (hafter : cmp after (key last) = .lt) :
    (as.filter fun a => cmp (key last) (key a) = .lt).length
      < (as.filter fun a => cmp after (key a) = .lt).length := by
  have hsub : (as.filter fun a => cmp (key last) (key a) = .lt)
      = (as.filter fun a => cmp after (key a) = .lt).filter fun a => cmp (key last) (key a) = .lt := by
    rw [filter_filter]
    refine filter_congr fun a _ => ?_
    rw [Bool.eq_iff_iff, Bool.and_eq_true, decide_eq_true_eq, decide_eq_true_eq]
    exact ⟨fun hlt => ⟨hlt, Std.TransCmp.lt_trans hafter hlt⟩, And.left⟩
  rw [hsub]
  exact length_filter_lt_length_iff_exists.mpr ⟨last, mem_filter.mpr ⟨hlast, decide_eq_true hafter⟩,
    by simp [Std.ReflCmp.compare_self]⟩

/-- Sorting leaves a sorted array as it is. -/
lemma sortBy_of_pairwise (h : as.Pairwise fun a b => (cmp a b).isLE) : sortBy cmp as = as :=
  h.insertionSort_eq

/-- Sorting does not depend on the order of what is sorted. -/
lemma sortBy_eq_of_perm [Std.TransCmp cmp] (heq : ∀ a b, cmp a b = .eq → a = b) {bs : List α} (h : as.Perm bs) :
    sortBy cmp as = sortBy cmp bs := by
  have hperm : (sortBy cmp as).Perm (sortBy cmp bs) :=
    (sortBy_perm cmp as).trans (h.trans (sortBy_perm cmp bs).symm)
  refine hperm.eq_of_pairwise ?_ (pairwise_sortBy cmp as) (pairwise_sortBy cmp bs)
  intro a b _ _ hab hba
  apply heq
  rw [@Std.OrientedCmp.eq_swap _ cmp _ b a] at hba
  cases hcmp : cmp a b <;> simp_all

/-- Comparing through a function keeps a comparator lawful. -/
lemma transCmp_comap (cmp : α → α → Ordering) [Std.TransCmp cmp] (f : β → α) :
    Std.TransCmp fun a b => cmp (f a) (f b) where
  eq_swap := Std.OrientedCmp.eq_swap
  isLE_trans := Std.TransCmp.isLE_trans

end Sorting

end InsertionOrder
