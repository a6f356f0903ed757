import Mathlib.Order.WellFounded
import Obts.InsertionOrder

/-!
# First elements by a key

The first element of a list, in the order of a key, that satisfies a test: what a sort
followed by a search returns, and what an ordered query with a limit of one returns. When
keys are distinct it depends on the set of elements alone, so elements that are not first
may be left out.
-/
namespace FirstByKey

open InsertionOrder List

variable {α : Type*} (key : α → Nat) (p : α → Bool)

/-- `x` satisfies the test and no element that does has a smaller key. -/
structure IsFirst (l : List α) (x : α) : Prop where
  mem : x ∈ l
  test : p x = true
  le : ∀ y ∈ l, p y = true → key x ≤ key y

variable {key p} {cmp : α → α → Ordering} {l : List α} {x : α}

lemma IsFirst.unique (hkey : ∀ x ∈ l, ∀ y ∈ l, key x = key y → x = y) {y : α}
    (hx : IsFirst key p l x) (hy : IsFirst key p l y) : x = y :=
  hkey x hx.mem y hy.mem (le_antisymm (hx.le y hy.mem hy.test) (hy.le x hx.mem hx.test))

lemma exists_isFirst (hx : x ∈ l) (hp : p x) : ∃ y, IsFirst key p l y := by
  have hsome : {y | y ∈ l ∧ p y = true}.Nonempty := ⟨x, hx, hp⟩
  obtain ⟨hmem, htest⟩ := Function.argminOn_mem key _ hsome
  refine ⟨_, hmem, htest, fun y hy hpy => ?_⟩
  exact Function.argminOn_le key {y | y ∈ l ∧ p y = true} ⟨hy, hpy⟩

/-- A search in a list sorted by the key, ties broken in any way, finds a first element. -/
lemma isFirst_of_find? [Std.TransCmp cmp] (hcmp : ∀ a b, (cmp a b).isLE → key a ≤ key b)
    (h : (sortBy cmp l).find? p = some x) : IsFirst key p l x := by
  obtain ⟨htest, before, after, hsplit, hbef⟩ := find?_eq_some_iff_append.mp h
  have hsort := pairwise_sortBy cmp l
  rw [hsplit] at hsort
  refine ⟨mem_sortBy.mp (mem_of_find?_eq_some h), htest, fun y hy hpy => ?_⟩
  have hmem : y ∈ before ++ x :: after := hsplit ▸ mem_sortBy.mpr hy
  rcases mem_append.mp hmem with hmem | hmem
  · have := hbef y hmem
    simp [hpy] at this
  rcases mem_cons.mp hmem with rfl | hmem
  · exact le_rfl
  · exact hcmp x y ((pairwise_cons.mp (pairwise_append.mp hsort).2.1).1 y hmem)

/-- Over distinct keys the search finds the first element. -/
lemma find?_sortBy_of_isFirst [Std.TransCmp cmp] (hcmp : ∀ a b, (cmp a b).isLE → key a ≤ key b)
    (hkey : ∀ x ∈ l, ∀ y ∈ l, key x = key y → x = y) (hx : IsFirst key p l x) :
    (sortBy cmp l).find? p = some x := by
  cases h : (sortBy cmp l).find? p with
  | none =>
    rw [find?_eq_none] at h
    exact absurd hx.test (h x (mem_sortBy.mpr hx.mem))
  | some y => exact congrArg some ((isFirst_of_find? hcmp h).unique hkey hx)

/-- Over distinct keys, two sorted searches find the same element when the one list is part
of the other and holds the other's first element. -/
lemma find?_sortBy_eq [Std.TransCmp cmp] {l' : List α} (hcmp : ∀ a b, (cmp a b).isLE → key a ≤ key b)
    (hkey : ∀ x ∈ l, ∀ y ∈ l, key x = key y → x = y) (hsub : l' ⊆ l)
    (hfirst : ∀ x, IsFirst key p l x → x ∈ l') : (sortBy cmp l').find? p = (sortBy cmp l).find? p := by
  cases h : (sortBy cmp l).find? p with
  | none =>
    rw [find?_eq_none] at h ⊢
    intro x hx
    exact h x (mem_sortBy.mpr (hsub (mem_sortBy.mp hx)))
  | some x =>
    have hx := isFirst_of_find? hcmp h
    have hkey' : ∀ x ∈ l', ∀ y ∈ l', key x = key y → x = y :=
      fun x hx y hy => hkey x (hsub hx) y (hsub hy)
    exact find?_sortBy_of_isFirst hcmp hkey' ⟨hfirst x hx, hx.test, fun y hy hpy => hx.le y (hsub hy) hpy⟩

end FirstByKey
