import Mathlib.Order.Comparable
import Mathlib.Order.UpperLower.Basic
import Mathlib.Order.Interval.Set.Basic

/-!
# Edits of node sets in a forest

A forest is a partial order in which the nodes above any node form a chain; read
`a ≤ b` as "`a` is `b` or an ancestor of `b`". An edit either creates a node together
with its ancestors or deletes a node together with its descendants. This module
describes runs of such edits by the last edit that touches each node, gives the
three-way merge rule for edits that no concurrent change opposes, and describes
ancestors-first runs, in which order no longer matters.
-/
namespace ForestEdits

open List

/-- A partial order whose principal down-sets are chains. -/
class ForestOrder (α : Type*) extends PartialOrder α where
  le_or_le_of_le : ∀ {a b c : α}, a ≤ c → b ≤ c → a ≤ b ∨ b ≤ a

variable {α : Type*} [ForestOrder α] {S B : Set α} {q : α} {nodes : List α}

/-- Two nodes overlap when one is the other's ancestor, or they are equal. -/
abbrev Overlap (a b : α) : Prop := Relation.SymmGen (· ≤ ·) a b

lemma overlap_of_le_le {a b c : α} (ha : a ≤ c) (hb : b ≤ c) : Overlap a b :=
  ForestOrder.le_or_le_of_le ha hb

/-- Moving towards the root keeps an overlap. -/
lemma Overlap.mono_left {a b c : α} (h : Overlap b c) (hab : a ≤ b) : Overlap a c := by
  rcases h with hbc | hcb
  · exact .inl (hab.trans hbc)
  · exact overlap_of_le_le hab hcb

inductive EditOp where
  | create
  | delete
  deriving DecidableEq

structure Edit (α : Type*) where
  op : EditOp
  node : α
  deriving DecidableEq

namespace Edit

/-- A create touches the node and its ancestors, a delete the node and its descendants. -/
def Touches (e : Edit α) (q : α) : Prop :=
  match e.op with
  | .create => q ≤ e.node
  | .delete => e.node ≤ q

def perform (S : Set α) (e : Edit α) : Set α :=
  match e.op with
  | .create => S ∪ Set.Iic e.node
  | .delete => S \ Set.Ici e.node

variable {e : Edit α}

lemma Touches.overlap (h : e.Touches q) : Overlap q e.node := by
  cases hop : e.op with
  | create => exact .inl (by simpa [Touches, hop] using h)
  | delete => exact .inr (by simpa [Touches, hop] using h)

lemma mem_perform_of_touches (h : e.Touches q) : q ∈ e.perform S ↔ e.op = .create := by
  cases hop : e.op with
  | create =>
    have hq : q ≤ e.node := by simpa [Touches, hop] using h
    simp [perform, hop, hq]
  | delete =>
    have hq : e.node ≤ q := by simpa [Touches, hop] using h
    simp [perform, hop, hq]

lemma mem_perform_of_not_touches (h : ¬ e.Touches q) : q ∈ e.perform S ↔ q ∈ S := by
  cases hop : e.op with
  | create =>
    have hq : ¬ q ≤ e.node := by simpa [Touches, hop] using h
    simp [perform, hop, hq]
  | delete =>
    have hq : ¬ e.node ≤ q := by simpa [Touches, hop] using h
    simp [perform, hop, hq]

lemma isLowerSet_perform (hS : IsLowerSet S) (e : Edit α) : IsLowerSet (e.perform S) := by
  cases hop : e.op with
  | create => simpa [perform, hop] using hS.union (isLowerSet_Iic e.node)
  | delete => simpa [perform, hop, Set.sdiff_eq] using hS.inter (isUpperSet_Ici e.node).compl

end Edit

/-- The node set after a list of edits, first edit first. -/
def run (S : Set α) (es : List (Edit α)) : Set α := es.foldl Edit.perform S

@[simp] lemma run_nil (S : Set α) : run S [] = S := rfl

@[simp] lemma run_cons (S : Set α) (e : Edit α) (es : List (Edit α)) : run S (e :: es) = run (e.perform S) es := rfl

lemma isLowerSet_run (hS : IsLowerSet S) (es : List (Edit α)) : IsLowerSet (run S es) := by
  induction es generalizing S with
  | nil => exact hS
  | cons e es ih => exact ih (Edit.isLowerSet_perform hS e)

/-- `e` is the last edit of `es` that touches `q`. -/
def LastTouch (es : List (Edit α)) (q : α) (e : Edit α) : Prop :=
  ∃ before after, es = before ++ e :: after ∧ e.Touches q ∧ ∀ f ∈ after, ¬ f.Touches q

variable {es : List (Edit α)} {e f : Edit α}

lemma LastTouch.mem (h : LastTouch es q e) : e ∈ es := by
  obtain ⟨before, after, rfl, _, _⟩ := h
  simp

lemma LastTouch.touches (h : LastTouch es q e) : e.Touches q := by
  obtain ⟨_, _, _, ht, _⟩ := h
  exact ht

lemma exists_lastTouch_or_untouched (es : List (Edit α)) (q : α) :
    (∃ e, LastTouch es q e) ∨ ∀ e ∈ es, ¬ e.Touches q := by
  induction es with
  | nil => exact .inr (by simp)
  | cons e es ih =>
    rcases ih with ⟨f, before, after, rfl, hf, hafter⟩ | hnone
    · exact .inl ⟨f, e :: before, after, rfl, hf, hafter⟩
    by_cases he : e.Touches q
    · exact .inl ⟨e, [], es, rfl, he, hnone⟩
    refine .inr fun f hf => ?_
    rcases mem_cons.mp hf with rfl | hf
    · exact he
    · exact hnone f hf

lemma mem_run_of_untouched (h : ∀ e ∈ es, ¬ e.Touches q) : q ∈ run S es ↔ q ∈ S := by
  induction es generalizing S with
  | nil => rfl
  | cons e es ih =>
    rw [run_cons, ih fun f hf => h f (mem_cons_of_mem _ hf)]
    exact Edit.mem_perform_of_not_touches (h e mem_cons_self)

lemma mem_run_of_lastTouch (h : LastTouch es q e) : q ∈ run S es ↔ e.op = .create := by
  obtain ⟨before, after, rfl, ht, hafter⟩ := h
  rw [run, foldl_append, foldl_cons]
  exact (mem_run_of_untouched hafter).trans (Edit.mem_perform_of_touches ht)

/-- No net change from `B` to `S` goes against `e` at an overlapping node. -/
def Unopposed (B S : Set α) (e : Edit α) : Prop :=
  match e.op with
  | .create => ∀ x ∈ B \ S, ¬ Overlap x e.node
  | .delete => ∀ x ∈ S \ B, ¬ Overlap x e.node

/-- If the last edit at `q` leaves `q` as `B` had it, an unopposed edit finds the same in `S`. -/
lemma Unopposed.agrees (h : Unopposed B S e)
    (ht : e.Touches q) (hB : q ∈ B ↔ e.op = .create) : q ∈ S ↔ e.op = .create := by
  cases hop : e.op with
  | create =>
    rw [Unopposed, hop] at h
    have hq : q ∈ B := hB.mpr hop
    have hS : q ∈ S := by
      by_contra hS
      exact h q ⟨hq, hS⟩ ht.overlap
    simp [hS]
  | delete =>
    rw [Unopposed, hop] at h
    have hq : q ∉ B := by simp [hB, hop]
    have hS : q ∉ S := by
      intro hS
      exact h q ⟨hS, hq⟩ ht.overlap
    simp [hS]

/-- Edits made against `B` and unopposed by the change from `B` to `S` may be run on `S`:
a node they change gets their value, and every other node keeps its value in `S`. -/
lemma run_three_way (h : ∀ e ∈ es, Unopposed B S e) (q : α) :
    (¬ (q ∈ run B es ↔ q ∈ B) → (q ∈ run S es ↔ q ∈ run B es)) ∧
      ((q ∈ run B es ↔ q ∈ B) → (q ∈ run S es ↔ q ∈ S)) := by
  rcases exists_lastTouch_or_untouched es q with ⟨e, he⟩ | hnone
  · have hB := mem_run_of_lastTouch (S := B) he
    have hS := mem_run_of_lastTouch (S := S) he
    refine ⟨fun _ => hS.trans hB.symm, fun hsame => ?_⟩
    have hagree := (h e he.mem).agrees he.touches (hsame.symm.trans hB)
    exact hS.trans hagree.symm
  · have hB := mem_run_of_untouched (S := B) hnone
    exact ⟨fun hdiff => absurd hB hdiff, fun _ => mem_run_of_untouched hnone⟩

/-- Running all edits over some of them, whichever and in any order, is running them. -/
lemma run_of_subset {es done : List (Edit α)} (h : done ⊆ es) : run (run S done) es = run S es := by
  ext q
  rcases exists_lastTouch_or_untouched es q with ⟨e, he⟩ | hnone
  · rw [mem_run_of_lastTouch he, mem_run_of_lastTouch he]
  · rw [mem_run_of_untouched hnone, mem_run_of_untouched hnone]
    exact mem_run_of_untouched fun e he => hnone e (h he)

/-- A later edit overrides an earlier one at the same node, and a later delete also
overrides every earlier edit below it. -/
def Overrides (g f : Edit α) : Prop :=
  g.node = f.node ∨ (g.op = .delete ∧ g.node ≤ f.node)

/-- `f` occurs in `es` and no later edit overrides it. -/
def Survives (es : List (Edit α)) (f : Edit α) : Prop :=
  ∃ before after, es = before ++ f :: after ∧ ∀ g ∈ after, ¬ Overrides g f

lemma not_survives_nil (f : Edit α) : ¬ Survives [] f := by
  rintro ⟨before, after, h, _⟩
  simp at h

lemma Survives.mem (h : Survives es f) : f ∈ es := by
  obtain ⟨before, after, rfl, _⟩ := h
  simp

lemma survives_append {es fs : List (Edit α)} :
    Survives (es ++ fs) f ↔ Survives fs f ∨ (Survives es f ∧ ∀ g ∈ fs, ¬ Overrides g f) := by
  constructor
  · rintro ⟨before, after, h, hafter⟩
    rcases append_eq_append_iff.mp h with ⟨mid, rfl, rfl⟩ | ⟨mid, rfl, hmid⟩
    · exact .inl ⟨mid, after, rfl, hafter⟩
    cases mid with
    | nil => exact .inl ⟨[], after, by simpa using hmid.symm, hafter⟩
    | cons g mid =>
      obtain ⟨rfl, rfl⟩ : f = g ∧ after = mid ++ fs := by simpa using hmid
      refine .inr ⟨⟨before, mid, rfl, fun g hg => ?_⟩, fun g hg => ?_⟩
      · exact hafter g (mem_append_left _ hg)
      · exact hafter g (mem_append_right _ hg)
  · rintro (⟨before, after, rfl, hafter⟩ | ⟨⟨before, after, rfl, hafter⟩, hfs⟩)
    · exact ⟨es ++ before, after, by simp, hafter⟩
    refine ⟨before, after ++ fs, by simp, fun g hg => ?_⟩
    rcases mem_append.mp hg with hg | hg
    · exact hafter g hg
    · exact hfs g hg

lemma survives_concat {e f : Edit α} : Survives (es ++ [e]) f ↔ f = e ∨ (Survives es f ∧ ¬ Overrides e f) := by
  have hone : Survives [e] f ↔ f = e := by
    constructor
    · intro h
      simpa using h.mem
    · rintro rfl
      exact ⟨[], [], rfl, by simp⟩
  rw [survives_append, hone]
  simp

/-- An edit that no other edit overrides survives. -/
lemma survives_of_mem (hf : f ∈ es) (h : ∀ g ∈ es, Overrides g f → g = f) : Survives es f := by
  induction es with
  | nil => simp at hf
  | cons e es ih =>
    rw [← singleton_append, survives_append]
    by_cases hmem : f ∈ es
    · exact .inl (ih hmem fun g hg => h g (mem_cons_of_mem _ hg))
    have hfe : f = e := (mem_cons.mp hf).resolve_right hmem
    refine .inr ⟨⟨[], [], by simp [hfe], by simp⟩, fun g hg hover => ?_⟩
    exact hmem (h g (mem_cons_of_mem _ hg) hover ▸ hg)

lemma survives_map_mk {op : EditOp} (h : op = .delete → ∀ a ∈ nodes, ∀ b ∈ nodes, ¬ a < b) :
    Survives (nodes.map (Edit.mk op)) f ↔ f.op = op ∧ f.node ∈ nodes := by
  constructor
  · intro h
    obtain ⟨a, ha, rfl⟩ := mem_map.mp h.mem
    exact ⟨rfl, ha⟩
  rcases f with ⟨op, a⟩
  rintro ⟨rfl, ha⟩
  refine survives_of_mem (mem_map_of_mem ha) fun g hg hover => ?_
  obtain ⟨b, hb, rfl⟩ := mem_map.mp hg
  rcases hover with hsame | ⟨hop, hle⟩
  · exact congrArg _ hsame
  · exact congrArg _ (hle.eq_of_not_lt (h hop b hb a ha))

/-- No edit is followed by an edit of the same node or of an ancestor. -/
def AncestorsFirst (es : List (Edit α)) : Prop :=
  es.Pairwise fun e f => ¬ f.node ≤ e.node

lemma AncestorsFirst.survives_iff_mem (h : AncestorsFirst es) : Survives es f ↔ f ∈ es := by
  refine ⟨Survives.mem, fun hf => ?_⟩
  obtain ⟨before, after, rfl⟩ := append_of_mem hf
  refine ⟨before, after, rfl, fun g hg hover => ?_⟩
  have hnot := (pairwise_cons.mp (pairwise_append.mp h).2.1).1 g hg
  rcases hover with heq | ⟨_, hle⟩
  · exact hnot heq.le
  · exact hnot hle

/-- In an ancestors-first run the creates win: order no longer matters. -/
lemma mem_run_of_ancestorsFirst (h : AncestorsFirst es) (q : α) :
    q ∈ run S es ↔ (∃ e ∈ es, e.op = .create ∧ q ≤ e.node) ∨ (q ∈ S ∧ ∀ e ∈ es, e.op = .delete → ¬ e.node ≤ q) := by
  rcases exists_lastTouch_or_untouched es q with ⟨e, he⟩ | hnone
  · rw [mem_run_of_lastTouch he]
    obtain ⟨before, after, rfl, ht, hafter⟩ := he
    cases hop : e.op with
    | create =>
      have hq : q ≤ e.node := by simpa [Edit.Touches, hop] using ht
      exact iff_of_true rfl (.inl ⟨e, by simp, hop, hq⟩)
    | delete =>
      have hq : e.node ≤ q := by simpa [Edit.Touches, hop] using ht
      refine iff_of_false (by simp) ?_
      rintro (⟨c, hc, hcop, hqc⟩ | ⟨_, hdel⟩)
      · -- a create at or below `q` would have to stand after the delete, and would touch `q`
        rcases mem_append.mp hc with hbef | hrest
        · have hpair := (pairwise_append.mp h).2.2 c hbef e mem_cons_self
          exact hpair (hq.trans hqc)
        rcases mem_cons.mp hrest with rfl | hlater
        · simp [hop] at hcop
        · exact hafter c hlater (by simpa [Edit.Touches, hcop] using hqc)
      · exact hdel e (by simp) hop hq
  · rw [mem_run_of_untouched hnone]
    constructor
    · intro hq
      refine .inr ⟨hq, fun e he hop hle => hnone e he ?_⟩
      simpa [Edit.Touches, hop] using hle
    rintro (⟨e, he, hop, hq⟩ | ⟨hq, _⟩)
    · exact absurd (by simpa [Edit.Touches, hop] using hq) (hnone e he)
    · exact hq

end ForestEdits
