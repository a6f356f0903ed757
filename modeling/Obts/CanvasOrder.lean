import Mathlib.Data.List.Find
import Obts.CanvasMerge

/-!
# The order of merged ids

Each addition of a side is spliced next to the nearest of the side's ids that are placed already, which
keeps the order of the side. There is one exception: an addition that comes before all placed ids of its
side, of which the first is the empty id, is put at the end, since the empty id does not count as true.
-/
namespace CanvasOrder

open InsertionOrder CanvasMerge List

section Aligned
variable {α : Type*} [DecidableEq α] {result side front back : List α} {x : α}

/-- What both lists have, they have in one order. -/
def Aligned (result side : List α) : Prop :=
  result.filter (fun x => x ∈ side) = side.filter fun x => x ∈ result

/-- An element that the side does not have goes anywhere. -/
lemma Aligned.insert_of_notMem (h : Aligned (front ++ back) side) (hx : x ∉ side) :
    Aligned (front ++ x :: back) side := by
  have hside : side.filter (fun y => y ∈ front ++ x :: back) = side.filter fun y => y ∈ front ++ back := by
    apply filter_congr
    intro y hy
    have hne : y ≠ x := fun heq => hx (heq ▸ hy)
    simp [hne]
  have hres : (front ++ x :: back).filter (fun y => y ∈ side) = (front ++ back).filter fun y => y ∈ side := by
    simp [hx]
  rw [Aligned, hside, hres]
  exact h

/-- An element of the side goes between what comes before it on the side and what comes after it. -/
lemma aligned_insert {earlier later : List α} (hnodup : (earlier.reverse ++ x :: later).Nodup)
    (hfront : front.filter (fun y => y ∈ earlier.reverse ++ x :: later)
      = earlier.reverse.filter fun y => y ∈ front ++ back)
    (hback : back.filter (fun y => y ∈ earlier.reverse ++ x :: later) = later.filter fun y => y ∈ front ++ back) :
    Aligned (front ++ x :: back) (earlier.reverse ++ x :: later) := by
  have hx := nodup_middle.mp hnodup
  rw [nodup_cons, mem_append, not_or] at hx
  have hrest : ∀ ys : List α, x ∉ ys →
      ys.filter (fun y => y ∈ front ++ x :: back) = ys.filter fun y => y ∈ front ++ back := by
    intro ys hys
    apply filter_congr
    intro y hy
    have hne : y ≠ x := fun heq => hys (heq ▸ hy)
    simp [hne]
  rw [Aligned, filter_append, filter_cons_of_pos (by simp), hfront, hback, filter_append,
    filter_cons_of_pos (by simp), hrest _ hx.1.1, hrest _ hx.1.2]

end Aligned

section Nearest
variable {α : Type*} {p : α → Bool} {earlier later : List α} {x : α}

/-- The nearest placed element before a position ends what is placed before it. -/
lemma filter_reverse_of_find? (h : earlier.find? p = some x) :
    ∃ front, earlier.reverse.filter p = front ++ [x] := by
  obtain ⟨hx, near, far, rfl, hnear⟩ := find?_eq_some_iff_append.mp h
  have hnone : near.reverse.filter p = [] := by
    rw [filter_eq_nil_iff]
    intro y hy
    simpa using hnear y (mem_reverse.mp hy)
  exact ⟨far.reverse.filter p, by simp [hnone, hx]⟩

/-- The nearest placed element after a position begins what is placed after it. -/
lemma filter_of_find? (h : later.find? p = some x) : ∃ back, later.filter p = x :: back := by
  obtain ⟨hx, near, far, rfl, hnear⟩ := find?_eq_some_iff_append.mp h
  have hnone : near.filter p = [] := by
    rw [filter_eq_nil_iff]
    intro y hy
    simpa using hnear y hy
  exact ⟨far.filter p, by simp [hnone, hx]⟩

/-- An element that occurs once splits a list in one way. -/
lemma split_unique {front back near far : List α} (h : front ++ x :: back = near ++ x :: far)
    (hnodup : (near ++ x :: far).Nodup) : front = near ∧ back = far := by
  rw [← h] at hnodup
  have hx := nodup_middle.mp hnodup
  rw [nodup_cons, mem_append, not_or] at hx
  obtain ⟨hfront, -, hback⟩ := (append_cons_inj_of_notMem hx.1.1 hx.1.2).mp h
  exact ⟨hfront, hback⟩

end Nearest

section Placing
variable {result earlier later front back : List String} {place id : String}
  {value : Option String}

lemma spliceAfter_append (hplace : place ∉ front) :
    spliceAfter place id (front ++ place :: back) = front ++ place :: id :: back := by
  induction front with
  | nil => exact if_pos rfl
  | cons other front ih =>
    rw [mem_cons, not_or] at hplace
    rw [cons_append, spliceAfter, if_neg (Ne.symm hplace.1), ih hplace.2, cons_append]

lemma spliceBefore_append (hplace : place ∉ front) :
    spliceBefore place id (front ++ place :: back) = front ++ id :: place :: back := by
  induction front with
  | nil => exact if_pos rfl
  | cons other front ih =>
    rw [mem_cons, not_or] at hplace
    rw [cons_append, spliceBefore, if_neg (Ne.symm hplace.1), ih hplace.2, cons_append]

lemma truthy_eq_some : truthy value = some id ↔ value = some id ∧ id ≠ "" := by
  simp [truthy]

lemma truthy_eq_none : truthy value = none ↔ value = none ∨ value = some "" := by
  cases value <;> simp [truthy]

/-- An addition that would come before all placed ids of its side, the first being the empty one. -/
def Misplaced (result earlier later : List String) : Prop :=
  earlier.find? (fun x => x ∈ result) = none ∧ later.find? (fun x => x ∈ result) = some ""

/-- Where an addition goes: next to an id that is placed already, or to the end. -/
lemma placeAddition_cases (result earlier later : List String) (id : String) :
    (∃ before front back, earlier.find? (fun x => x ∈ result) = some before ∧ before ∉ front ∧
        result = front ++ before :: back ∧ placeAddition result earlier later id = front ++ before :: id :: back) ∨
      (∃ after front back, later.find? (fun x => x ∈ result) = some after ∧ after ∉ front ∧
        result = front ++ after :: back ∧ placeAddition result earlier later id = front ++ id :: after :: back) ∨
      (placeAddition result earlier later id = result ++ [id] ∧
        (later.find? (fun x => x ∈ result) = none ∨ later.find? (fun x => x ∈ result) = some "" ∧
            (earlier.find? (fun x => x ∈ result) = none ∨ earlier.find? (fun x => x ∈ result) = some ""))) := by
  rw [placeAddition]
  cases hear : truthy (earlier.find? fun x => x ∈ result) with
  | some before =>
    have hfind := (truthy_eq_some.mp hear).1
    have hmem : before ∈ result := by simpa using find?_some hfind
    obtain ⟨front, back, hres, hfront⟩ := eq_append_cons_of_mem hmem
    refine .inl ⟨before, front, back, hfind, hfront, hres, ?_⟩
    subst hres
    exact spliceAfter_append hfront
  | none =>
    right
    cases hlater : truthy (later.find? fun x => x ∈ result) with
    | some after =>
      have hfind := (truthy_eq_some.mp hlater).1
      have hmem : after ∈ result := by simpa using find?_some hfind
      obtain ⟨front, back, hres, hfront⟩ := eq_append_cons_of_mem hmem
      refine .inl ⟨after, front, back, hfind, hfront, hres, ?_⟩
      subst hres
      exact spliceBefore_append hfront
    | none =>
      refine .inr ⟨rfl, ?_⟩
      rcases truthy_eq_none.mp hlater with hnone | hempty
      · exact .inl hnone
      · exact .inr ⟨hempty, truthy_eq_none.mp hear⟩

/-- An addition is put in somewhere, and the rest stays as it is. -/
lemma exists_placeAddition (result earlier later : List String) (id : String) :
    ∃ front back, result = front ++ back ∧ placeAddition result earlier later id = front ++ id :: back := by
  rcases placeAddition_cases result earlier later id with
    ⟨before, front, back, -, -, hres, hplace⟩ | ⟨after, front, back, -, -, hres, hplace⟩ | ⟨hplace, -⟩
  · refine ⟨front ++ [before], back, ?_, ?_⟩
    · rw [hres, append_assoc, singleton_append]
    · rw [hplace, append_assoc, singleton_append]
  · exact ⟨front, after :: back, hres, hplace⟩
  · exact ⟨result, [], (append_nil _).symm, hplace⟩

/-- An addition keeps its side's order, unless it is misplaced. -/
lemma aligned_placeAddition (hnodup : (earlier.reverse ++ id :: later).Nodup) (hid : id ∉ result)
    (halig : Aligned result (earlier.reverse ++ id :: later)) (hplac : ¬ Misplaced result earlier later) :
    Aligned (placeAddition result earlier later id) (earlier.reverse ++ id :: later) := by
  have hsplit : result.filter (fun x => x ∈ earlier.reverse ++ id :: later)
      = earlier.reverse.filter (fun x => x ∈ result) ++ later.filter fun x => x ∈ result := by
    rw [halig, filter_append, filter_cons_of_neg (by simpa using hid)]
  have hdist : (earlier.reverse.filter (fun x => x ∈ result)
      ++ later.filter fun x => x ∈ result).Nodup := by
    rw [← hsplit, halig]
    exact hnodup.filter _
  rcases placeAddition_cases result earlier later id with
    ⟨before, front, back, hfind, hfront, hres, hplace⟩ |
    ⟨after, front, back, hfind, hfront, hres, hplace⟩ | ⟨hplace, hend⟩
  · obtain ⟨near, hnear⟩ := filter_reverse_of_find? hfind
    have hside : before ∈ earlier.reverse ++ id :: later := by
      have hmem := mem_of_find?_eq_some hfind
      simp [hmem]
    rw [hres, filter_append, filter_cons_of_pos (by simpa using hside), ← hres, hnear,
      append_assoc, singleton_append] at hsplit
    rw [hnear, append_assoc, singleton_append] at hdist
    obtain ⟨hfron, hbacks⟩ := split_unique hsplit hdist
    rw [hplace]
    have hmid : front ++ before :: id :: back = (front ++ [before]) ++ id :: back := by simp
    have hwhole : result = (front ++ [before]) ++ back := by simp [hres]
    rw [hmid]
    apply aligned_insert hnodup
    · rw [← hwhole, hnear, filter_append, hfron, filter_cons_of_pos (by simpa using hside),
        filter_nil]
    · rw [← hwhole, hbacks]
  · obtain ⟨far, hfar⟩ := filter_of_find? hfind
    have hside : after ∈ earlier.reverse ++ id :: later := by
      have hmem := mem_of_find?_eq_some hfind
      simp [hmem]
    rw [hres, filter_append, filter_cons_of_pos (by simpa using hside), ← hres, hfar] at hsplit
    rw [hfar] at hdist
    obtain ⟨hfron, hbacks⟩ := split_unique hsplit hdist
    rw [hplace]
    apply aligned_insert hnodup
    · rw [← hres, hfron]
    · rw [← hres, hfar, filter_cons_of_pos (by simpa using hside), hbacks]
  · have hlater : later.filter (fun x => x ∈ result) = [] := by
      rw [filter_eq_nil_iff]
      rcases hend with hnone | ⟨hlast, hnone | hempty⟩
      · exact fun x hx => find?_eq_none.mp hnone x hx
      · exact absurd ⟨hnone, hlast⟩ hplac
      -- the empty id would be on both sides of the addition
      have hbef := mem_of_find?_eq_some hempty
      have hafter := mem_of_find?_eq_some hlast
      have hdisj := (nodup_append'.mp hnodup).2.2
      exact absurd (mem_cons_of_mem _ hafter) (hdisj (mem_reverse.mpr hbef))
    rw [hplace]
    apply aligned_insert hnodup
    · rw [hsplit, hlater, append_nil, append_nil]
    · rw [append_nil, hlater, filter_nil]

end Placing

section Integrating
variable {baseIds mergedIds side result earlier later : List String} {id x : String}

/-- Whether the loop goes past an id. -/
def Skipped (baseIds mergedIds result : List String) (id : String) : Prop :=
  id ∈ baseIds ∨ id ∉ mergedIds ∨ id ∈ result

lemma integrateFrom_cons_of_skipped (h : Skipped baseIds mergedIds result id) :
    integrateFrom baseIds mergedIds result earlier (id :: later)
      = integrateFrom baseIds mergedIds result (id :: earlier) later := by
  rw [integrateFrom, if_pos]
  simpa [Skipped, or_assoc] using h

lemma integrateFrom_cons_of_placed (h : ¬ Skipped baseIds mergedIds result id) :
    integrateFrom baseIds mergedIds result earlier (id :: later)
      = integrateFrom baseIds mergedIds (placeAddition result earlier later id) (id :: earlier) later := by
  rw [integrateFrom, if_neg]
  simpa [Skipped, or_assoc] using h

/-- What the loop keeps, with the ids before and after the current one. -/
lemma integrateFrom_rule {P : List String → List String → List String → Prop}
    (hskip : ∀ result earlier id later, P result earlier (id :: later) →
      Skipped baseIds mergedIds result id → P result (id :: earlier) later)
    (hplace : ∀ result earlier id later, P result earlier (id :: later) →
      ¬ Skipped baseIds mergedIds result id → P (placeAddition result earlier later id) (id :: earlier) later)
    (h : P result earlier later) :
    P (integrateFrom baseIds mergedIds result earlier later) (later.reverse ++ earlier) [] := by
  induction later generalizing result earlier with
  | nil => exact h
  | cons id later ih =>
    rw [reverse_cons, append_assoc, singleton_append]
    by_cases hid : Skipped baseIds mergedIds result id
    · rw [integrateFrom_cons_of_skipped hid]
      exact ih (hskip result earlier id later h hid)
    · rw [integrateFrom_cons_of_placed hid]
      exact ih (hplace result earlier id later h hid)

lemma mem_placeAddition : x ∈ placeAddition result earlier later id ↔ x = id ∨ x ∈ result := by
  obtain ⟨front, back, rfl, hplace⟩ := exists_placeAddition result earlier later id
  rw [hplace, mem_append, mem_cons, mem_append, or_left_comm]

lemma nodup_placeAddition (h : result.Nodup) (hid : id ∉ result) :
    (placeAddition result earlier later id).Nodup := by
  obtain ⟨front, back, rfl, hplace⟩ := exists_placeAddition result earlier later id
  rw [hplace]
  exact nodup_middle.mpr (nodup_cons.mpr ⟨hid, h⟩)

lemma sublist_placeAddition : result.Sublist (placeAddition result earlier later id) := by
  obtain ⟨front, back, rfl, hplace⟩ := exists_placeAddition result earlier later id
  rw [hplace]
  exact List.Sublist.append (List.Sublist.refl _) (sublist_cons_self _ _)

lemma mem_integrate : x ∈ integrateFrom baseIds mergedIds result earlier later ↔
      x ∈ result ∨ (x ∈ later ∧ x ∉ baseIds ∧ x ∈ mergedIds) := by
  induction later generalizing result earlier with
  | nil => simp [integrateFrom]
  | cons id later ih =>
    by_cases hid : Skipped baseIds mergedIds result id
    · rw [integrateFrom_cons_of_skipped hid, ih]
      constructor
      · rintro (hres | ⟨hlater, hadded⟩)
        · exact .inl hres
        · exact .inr ⟨mem_cons_of_mem _ hlater, hadded⟩
      rintro (hres | ⟨hlater, hnew, hmrg⟩)
      · exact .inl hres
      rcases mem_cons.mp hlater with rfl | hlater
      · rcases hid with hbase | hnot | hres
        · exact absurd hbase hnew
        · exact absurd hmrg hnot
        · exact .inl hres
      · exact .inr ⟨hlater, hnew, hmrg⟩
    · rw [integrateFrom_cons_of_placed hid, ih, mem_placeAddition, or_assoc]
      simp only [Skipped, not_or, not_not] at hid
      constructor
      · rintro (rfl | hres | ⟨hlater, hadded⟩)
        · exact .inr ⟨mem_cons_self, hid.1, hid.2.1⟩
        · exact .inl hres
        · exact .inr ⟨mem_cons_of_mem _ hlater, hadded⟩
      rintro (hres | ⟨hlater, hadded⟩)
      · exact .inr (.inl hres)
      rcases mem_cons.mp hlater with rfl | hlater
      · exact .inl rfl
      · exact .inr (.inr ⟨hlater, hadded⟩)

lemma nodup_integrate (h : result.Nodup) : (integrateFrom baseIds mergedIds result earlier later).Nodup := by
  refine integrateFrom_rule (P := fun result _ _ => result.Nodup) (fun _ _ _ _ h _ => h) ?_ h
  intro result earlier id later h hid
  simp only [Skipped, not_or] at hid
  exact nodup_placeAddition h hid.2.2

lemma sublist_integrate : result.Sublist (integrateFrom baseIds mergedIds result earlier later) := by
  refine integrateFrom_rule (P := fun others _ _ => result.Sublist others) (fun _ _ _ _ h _ => h) ?_
    (List.Sublist.refl _)
  exact fun _ _ _ _ h _ => h.trans sublist_placeAddition

/-- A list that has none of the additions keeps its order. -/
lemma aligned_integrate_of_foreign {other : List String} (h : Aligned result other)
    (hfor : ∀ x ∈ later, x ∉ baseIds → x ∈ mergedIds → x ∉ other) :
    Aligned (integrateFrom baseIds mergedIds result earlier later) other := by
  refine (integrateFrom_rule (P := fun result _ later => Aligned result other ∧
    ∀ x ∈ later, x ∉ baseIds → x ∈ mergedIds → x ∉ other) ?_ ?_ ⟨h, hfor⟩).1
  · exact fun _ _ _ _ h _ => ⟨h.1, fun x hx => h.2 x (mem_cons_of_mem _ hx)⟩
  intro result earlier id later h hid
  simp only [Skipped, not_or, not_not] at hid
  obtain ⟨front, back, rfl, hplace⟩ := exists_placeAddition result earlier later id
  rw [hplace]
  exact ⟨h.1.insert_of_notMem (h.2 id mem_cons_self hid.1 hid.2.1), fun x hx => h.2 x (mem_cons_of_mem _ hx)⟩

/-- A side on the way through the loop. -/
structure Integrating (baseIds mergedIds side result earlier later : List String) : Prop where
  whole : side = earlier.reverse ++ later
  aligned : Aligned result side
  merged : ∀ x ∈ result, x ∈ mergedIds
  placed : ∀ x ∈ earlier, x ∈ mergedIds → x ∈ result
  survivors : ∀ x ∈ side, x ∈ baseIds → x ∈ mergedIds → x ∈ result
  ahead : ∀ x ∈ later, x ∈ result → x ∈ baseIds

/-- The first surviving id of the base is empty, and the side has an addition before all its surviving
ids. -/
structure LeadsEmpty (baseIds mergedIds side : List String) : Prop where
  base : side.find? (fun x => x ∈ baseIds ∧ x ∈ mergedIds) = some ""
  addition : ∃ id, side.find? (fun x => x ∈ mergedIds) = some id ∧ id ∉ baseIds

section
variable (h : Integrating baseIds mergedIds side result earlier (id :: later))
include h

lemma Integrating.skip (hid : Skipped baseIds mergedIds result id) :
    Integrating baseIds mergedIds side result (id :: earlier) later := { h with
  whole := by simpa using h.whole
  placed := by
    intro x hx hmrg
    rcases mem_cons.mp hx with rfl | hx
    · rcases hid with hbase | hnot | hres
      · exact h.survivors x (by simp [h.whole]) hbase hmrg
      · exact absurd hmrg hnot
      · exact hres
    · exact h.placed x hx hmrg
  ahead := fun x hx => h.ahead x (mem_cons_of_mem _ hx) }

lemma Integrating.place (hnodup : side.Nodup) (hid : ¬ Skipped baseIds mergedIds result id)
    (hplac : ¬ Misplaced result earlier later) :
    Integrating baseIds mergedIds side (placeAddition result earlier later id) (id :: earlier) later where
  whole := by simpa using h.whole
  aligned := by
    simp only [Skipped, not_or] at hid
    have hwhole := h.whole
    subst hwhole
    exact aligned_placeAddition hnodup hid.2.2 h.aligned hplac
  merged := by
    simp only [Skipped, not_or, not_not] at hid
    intro x hx
    rcases mem_placeAddition.mp hx with rfl | hx
    · exact hid.2.1
    · exact h.merged x hx
  placed := by
    intro x hx hmrg
    rw [mem_placeAddition]
    rcases mem_cons.mp hx with rfl | hx
    · exact .inl rfl
    · exact .inr (h.placed x hx hmrg)
  survivors := fun x hx hbase hmrg => mem_placeAddition.mpr (.inr (h.survivors x hx hbase hmrg))
  ahead := by
    intro x hx hres
    rcases mem_placeAddition.mp hres with rfl | hres
    · rw [h.whole] at hnodup
      have hdist := nodup_middle.mp hnodup
      exact absurd (mem_append_right _ hx) (nodup_cons.mp hdist).1
    · exact h.ahead x (mem_cons_of_mem _ hx) hres

/-- Only before an empty first id is an addition misplaced. -/
lemma Integrating.leadsEmpty (hid : ¬ Skipped baseIds mergedIds result id) (hmisp : Misplaced result earlier later) :
    LeadsEmpty baseIds mergedIds side := by
  simp only [Skipped, not_or, not_not] at hid
  have hear : ∀ x ∈ earlier, x ∉ mergedIds := by
    intro x hx hmrg
    exact find?_eq_none.mp hmisp.1 x hx (by simpa using h.placed x hx hmrg)
  constructor
  · rw [h.whole, find?_append, find?_cons_of_neg (by simp [hid.1]), find?_eq_none.mpr]
    · rw [Option.none_or, ← hmisp.2]
      apply find?_congr
      intro x hx
      rw [decide_eq_decide]
      constructor
      · rintro ⟨hbase, hmrg⟩
        apply h.survivors x _ hbase hmrg
        rw [h.whole]
        exact mem_append_right _ (mem_cons_of_mem _ hx)
      · intro hres
        exact ⟨h.ahead x (mem_cons_of_mem _ hx) hres, h.merged x hres⟩
    · intro x hx
      simp [hear x (mem_reverse.mp hx)]
  · refine ⟨id, ?_, hid.1⟩
    rw [h.whole, find?_append, find?_cons_of_pos (by simpa using hid.2.1), find?_eq_none.mpr]
    · rfl
    · intro x hx
      simp [hear x (mem_reverse.mp hx)]

end

/-- A side that does not lead with an addition before the empty id keeps its order. -/
lemma aligned_integrate (h : Integrating baseIds mergedIds side result [] side) (hnodup : side.Nodup)
    (hleads : ¬ LeadsEmpty baseIds mergedIds side) :
    Aligned (integrateCanvasAdditions result side baseIds mergedIds) side := by
  refine (integrateFrom_rule (P := Integrating baseIds mergedIds side) ?_ ?_ h).aligned
  · exact fun _ _ _ _ h hid => h.skip hid
  · exact fun _ _ _ _ h hid => h.place hnodup hid fun hmisp => hleads (h.leadsEmpty hid hmisp)

lemma integrateFrom_of_none_merged {front : List String} (hfront : ∀ x ∈ front, x ∉ mergedIds) :
    integrateFrom baseIds mergedIds result earlier (front ++ later)
      = integrateFrom baseIds mergedIds result (front.reverse ++ earlier) later := by
  induction front generalizing earlier with
  | nil => rfl
  | cons x front ih =>
    rw [forall_mem_cons] at hfront
    rw [cons_append, integrateFrom_cons_of_skipped (.inr (.inl hfront.1)), ih hfront.2]
    simp

/-- Distinct elements come in one order only. -/
lemma not_swapped {l : List String} {a b : String} (hnodup : l.Nodup) (hab : [a, b].Sublist l)
    (hba : [b, a].Sublist l) : False := by
  induction l with
  | nil => cases hab
  | cons c l ih =>
    rw [nodup_cons] at hnodup
    cases hab with
    | cons _ hab =>
      cases hba with
      | cons _ hba => exact ih hnodup.2 hab hba
      | cons_cons _ hba => exact hnodup.1 (hab.subset (by simp))
    | cons_cons _ hab =>
      cases hba with
      | cons _ hba => exact hnodup.1 (hba.subset (by simp))
      | cons_cons _ hba => exact hnodup.1 (hab.subset (by simp))

/-- A side that leads with an addition before the empty id ends up with them the other way round. -/
lemma exists_swapped (h : Integrating baseIds mergedIds side result [] side)
    (hleads : LeadsEmpty baseIds mergedIds side) : ∃ id ∈ side, [id, ""].Sublist side ∧
      ["", id].Sublist (integrateCanvasAdditions result side baseIds mergedIds) := by
  obtain ⟨id, hfind, hnew⟩ := hleads.addition
  obtain ⟨hmrg, front, later, hside, hfront⟩ := find?_eq_some_iff_append.mp hfind
  simp only [decide_eq_true_eq] at hmrg
  have hnone : ∀ x ∈ front, x ∉ mergedIds := fun x hx => by simpa using hfront x hx
  have hlater : later.find? (fun x => x ∈ baseIds ∧ x ∈ mergedIds) = some "" := by
    have hbase := hleads.base
    rw [hside, find?_append, find?_cons_of_neg (by simp [hnew]), find?_eq_none.mpr] at hbase
    · exact hbase
    · intro x hx
      simp [hnone x hx]
  have hempty := mem_of_find?_eq_some hlater
  have hmem : id ∈ side := by simp [hside]
  have hempS : "" ∈ side := by simp [hside, hempty]
  have hres : "" ∈ result := by
    have hsurv : "" ∈ baseIds ∧ "" ∈ mergedIds := by simpa using find?_some hlater
    exact h.survivors "" hempS hsurv.1 hsurv.2
  have hskip : ¬ Skipped baseIds mergedIds result id := by
    simp only [Skipped, not_or, not_not]
    exact ⟨hnew, hmrg, fun hin => hnew (h.ahead id hmem hin)⟩
  have hplace : placeAddition result front.reverse later id = result ++ [id] := by
    have hbef : front.reverse.find? (fun x => x ∈ result) = none := by
      rw [find?_eq_none]
      intro x hx hin
      exact hnone x (mem_reverse.mp hx) (h.merged x (by simpa using hin))
    have hafter : later.find? (fun x => x ∈ result) = some "" := by
      rw [← hlater]
      apply find?_congr
      intro x hx
      have hx' : x ∈ side := by simp [hside, hx]
      rw [decide_eq_decide]
      exact ⟨fun hin => ⟨h.ahead x hx' hin, h.merged x hin⟩, fun hin => h.survivors x hx' hin.1 hin.2⟩
    rw [placeAddition, hbef, hafter]
    rfl
  refine ⟨id, hmem, ?_, ?_⟩
  · rw [hside]
    have htail : [id, ""].Sublist (id :: later) := (singleton_sublist.mpr hempty).cons_cons id
    exact htail.trans (sublist_append_right _ _)
  rw [integrateCanvasAdditions, hside, integrateFrom_of_none_merged hnone, append_nil,
    integrateFrom_cons_of_placed hskip, hplace]
  have hpair : ["", id].Sublist (result ++ [id]) :=
    (singleton_sublist.mpr hres).append (List.Sublist.refl [id])
  exact hpair.trans sublist_integrate

lemma not_aligned_of_swapped (hnodup : side.Nodup) (hside : [id, ""].Sublist side)
    (hres : ["", id].Sublist result) : ¬ Aligned result side := by
  intro halig
  have hin : ["", id].Sublist (result.filter fun x => x ∈ side) := by
    have hkept : ["", id].filter (fun x => x ∈ side) = ["", id] := by
      rw [filter_eq_self]
      intro x hx
      have hmem : x ∈ [id, ""] := by simpa [or_comm] using hx
      simpa using hside.subset hmem
    rw [← hkept]
    exact hres.filter _
  rw [halig] at hin
  exact not_swapped hnodup (hin.trans filter_sublist) hside

end Integrating

section Order
variable {kind : CollectionKind} {base current device mergedIds order side : List String}
  {x : String}

/-- The ids of the merge: those of the base that both sides keep, and those that a side adds. -/
def Survives (base current device : List String) (id : String) : Prop :=
  (id ∈ base ∧ id ∈ current ∧ id ∈ device) ∨ (id ∉ base ∧ (id ∈ current ∨ id ∈ device))

instance : DecidablePred (Survives base current device) := by
  unfold Survives
  infer_instance

lemma Survives.inSides (h : Survives base current device x) (hbase : x ∈ base) : x ∈ current ∧ x ∈ device := by
  rcases h with ⟨-, hsides⟩ | ⟨hnew, -⟩
  · exact hsides
  · exact absurd hbase hnew

/-- The surviving ids of the base, in the order of the base. -/
def survivors (base mergedIds : List String) : List String := base.filter fun id => id ∈ mergedIds

lemma mem_survivors : x ∈ survivors base mergedIds ↔ x ∈ base ∧ x ∈ mergedIds := by
  simp [survivors]

lemma nodup_orderedExisting {ids : List String} (hbase : base.Nodup) (hcur : current.Nodup)
    (hdev : device.Nodup) : (orderedExisting base current device ids).Nodup := by
  rw [orderedExisting]
  split
  · exact hcur.filter _
  split
  · exact hdev.filter _
  · exact hbase.filter _

/-- The order of the merge before what is not merged and what is repeated are taken out. -/
def integrated (base current device mergedIds : List String) : List String :=
  integrateCanvasAdditions
    (integrateCanvasAdditions (orderedExisting base current device (survivors base mergedIds)) current base mergedIds)
    device base mergedIds

lemma nodup_integrated (hbase : base.Nodup) (hcur : current.Nodup) (hdev : device.Nodup) :
    (integrated base current device mergedIds).Nodup :=
  nodup_integrate (nodup_integrate (nodup_orderedExisting hbase hcur hdev))

section
variable (hmrg : ∀ x, x ∈ mergedIds ↔ Survives base current device x)
include hmrg

lemma mem_orderedExisting :
    x ∈ orderedExisting base current device (survivors base mergedIds) ↔ x ∈ base ∧ x ∈ mergedIds := by
  have hsides : x ∈ base ∧ x ∈ mergedIds → x ∈ current ∧ x ∈ device := by
    rintro ⟨hbase, hx⟩
    exact ((hmrg x).mp hx).inSides hbase
  rw [orderedExisting]
  split
  · rw [mem_filter, decide_eq_true_eq, mem_survivors]
    exact ⟨fun h => h.2, fun h => ⟨(hsides h).1, h⟩⟩
  split
  · rw [mem_filter, decide_eq_true_eq, mem_survivors]
    exact ⟨fun h => h.2, fun h => ⟨(hsides h).2, h⟩⟩
  · rw [mem_filter, decide_eq_true_eq, mem_survivors]
    exact ⟨fun h => h.2, fun h => ⟨h.1, h⟩⟩

lemma mem_integrated : x ∈ integrated base current device mergedIds ↔ x ∈ mergedIds := by
  rw [integrated, integrateCanvasAdditions, integrateCanvasAdditions, mem_integrate, mem_integrate,
    mem_orderedExisting hmrg]
  constructor
  · rintro ((⟨-, hx⟩ | ⟨-, -, hx⟩) | ⟨-, -, hx⟩) <;> exact hx
  intro hx
  rcases (hmrg x).mp hx with ⟨hbase, -⟩ | ⟨hnew, hcur | hdev⟩
  · exact .inl (.inl ⟨hbase, hx⟩)
  · exact .inl (.inr ⟨hcur, hnew, hx⟩)
  · exact .inr ⟨hdev, hnew, hx⟩

/-- The merge has an order just when not both sides have an order of their own, and then it has each merged
id once. -/
lemma mergeCanvasOrder_iff (hbase : base.Nodup) (hcur : current.Nodup) (hdev : device.Nodup) :
    mergeCanvasOrder kind base current device mergedIds = .ok order ↔
      concurrentOrders base current device (survivors base mergedIds) = false ∧
        order = integrated base current device mergedIds := by
  have hres : (ofList (integrated base current device mergedIds)).filter (fun id => id ∈ mergedIds)
      = integrated base current device mergedIds := by
    rw [ofList_of_nodup (nodup_integrated hbase hcur hdev), filter_eq_self]
    intro x hx
    simpa using (mem_integrated hmrg).mp hx
  rw [mergeCanvasOrder]
  cases hconc : concurrentOrders base current device (survivors base mergedIds) with
  | true =>
    refine iff_of_false ?_ (by simp)
    intro h
    rw [survivors] at hconc
    simp only [hconc, if_true] at h
    cases h
  | false =>
    rw [survivors] at hconc
    simp only [hconc, Bool.false_eq_true, if_false, true_and]
    change Except.ok ((ofList (integrated base current device mergedIds)).filter _) = _ ↔ _
    rw [hres, Except.ok.injEq, eq_comm]

/-- Additions do not touch the order of the base's ids. -/
lemma filter_integrated : (integrated base current device mergedIds).filter (fun id => id ∈ base)
      = orderedExisting base current device (survivors base mergedIds) := by
  have hkept : ∀ result earlier later : List String,
      (integrateFrom base mergedIds result earlier later).filter (fun id => id ∈ base)
        = result.filter fun id => id ∈ base := by
    intro result earlier later
    refine integrateFrom_rule (P := fun others _ _ => others.filter (fun id => id ∈ base)
      = result.filter fun id => id ∈ base) (fun _ _ _ _ h _ => h) ?_ rfl
    intro others earlier id later h hid
    simp only [Skipped, not_or] at hid
    obtain ⟨front, back, rfl, hplace⟩ := exists_placeAddition others earlier later id
    rw [hplace, ← h]
    simp [hid.1]
  rw [integrated, integrateCanvasAdditions, integrateCanvasAdditions, hkept, hkept, filter_eq_self]
  intro x hx
  simpa using ((mem_orderedExisting hmrg).mp hx).1

end

/-- The surviving ids come on a side in the order of the base. -/
def KeepsBaseOrder (base side mergedIds : List String) : Prop :=
  side.filter (fun id => id ∈ survivors base mergedIds) = survivors base mergedIds

lemma find?_survivors (hside : KeepsBaseOrder base side mergedIds) :
    side.find? (fun x => x ∈ base ∧ x ∈ mergedIds) = base.find? fun x => x ∈ mergedIds := by
  have hflt : side.filter (fun x => x ∈ base ∧ x ∈ mergedIds) = base.filter fun x => x ∈ mergedIds := by
    simp only [KeepsBaseOrder, mem_survivors] at hside
    exact hside
  rw [← head?_filter, hflt, head?_filter]

lemma aligned_survivors (hside : KeepsBaseOrder base side mergedIds) : Aligned (survivors base mergedIds) side := by
  rw [Aligned, hside, filter_eq_self]
  intro x hx
  rw [← hside] at hx
  simpa using (mem_filter.mp hx).1

/-- What the order of the merge keeps of its sides. -/
structure KeepsSideOrders (current device order : List String) : Prop where
  current : order.filter (fun id => id ∈ current) = current.filter fun id => id ∈ order
  device : order.filter (fun id => id ∈ device) = device.filter fun id => id ∈ order

/-- With the base's order kept on both sides and no id added by both, the merge keeps the order of each side,
unless a side leads with an addition before an empty id. -/
lemma keepsSideOrders_iff (hcur : current.Nodup) (hdev : device.Nodup)
    (hcord : KeepsBaseOrder base current mergedIds) (hdord : KeepsBaseOrder base device mergedIds)
    (hapart : ∀ x ∉ base, x ∈ current → x ∉ device) :
    KeepsSideOrders current device (integrated base current device mergedIds) ↔
      ¬ LeadsEmpty base mergedIds current ∧ ¬ LeadsEmpty base mergedIds device := by
  have hex : orderedExisting base current device (survivors base mergedIds) = survivors base mergedIds := by
    have hsame : ∀ side : List String, KeepsBaseOrder base side mergedIds →
        CanvasMerge.orderOf side (survivors base mergedIds)
          = CanvasMerge.orderOf base (survivors base mergedIds) := by
      intro side hside
      rw [CanvasMerge.orderOf, CanvasMerge.orderOf, hside]
      congr 1
      rw [survivors, eq_comm]
      apply filter_congr
      intro x hx
      simp [hx]
    rw [orderedExisting, if_neg (not_not.mpr (hsame current hcord)),
      if_neg (not_not.mpr (hsame device hdord)), survivors]
    apply filter_congr
    intro x hx
    simp [hx]
  have hstart : Integrating base mergedIds current (survivors base mergedIds) [] current := by
    constructor
    · rfl
    · exact aligned_survivors hcord
    · exact fun x hx => (mem_survivors.mp hx).2
    · exact fun x hx => nomatch hx
    · exact fun x _ hbase hx => mem_survivors.mpr ⟨hbase, hx⟩
    · exact fun x _ hx => (mem_survivors.mp hx).1
  have hnext : Integrating base mergedIds device
      (integrateCanvasAdditions (survivors base mergedIds) current base mergedIds) [] device := by
    constructor
    · rfl
    · apply aligned_integrate_of_foreign (aligned_survivors hdord)
      exact fun x hx hnew _ => hapart x hnew hx
    · intro x hx
      rcases mem_integrate.mp hx with hx | ⟨-, -, hx⟩
      · exact (mem_survivors.mp hx).2
      · exact hx
    · exact fun x hx => nomatch hx
    · exact fun x _ hbase hx => mem_integrate.mpr (.inl (mem_survivors.mpr ⟨hbase, hx⟩))
    · intro x hxdev hx
      rcases mem_integrate.mp hx with hx | ⟨hxcur, hnew, -⟩
      · exact (mem_survivors.mp hx).1
      · exact absurd hxdev (hapart x hnew hxcur)
  rw [integrated, hex]
  constructor
  · intro h
    constructor
    · intro hleads
      obtain ⟨id, -, hside, hres⟩ := exists_swapped hstart hleads
      exact not_aligned_of_swapped hcur hside (hres.trans sublist_integrate) h.current
    intro hleads
    obtain ⟨id, -, hside, hres⟩ := exists_swapped hnext hleads
    exact not_aligned_of_swapped hdev hside hres h.device
  · rintro ⟨hcurL, hdevL⟩
    constructor
    · apply aligned_integrate_of_foreign (aligned_integrate hstart hcur hcurL)
      exact fun x hx hnew _ hxcur => hapart x hnew hxcur hx
    · exact aligned_integrate hnext hdev hdevL

end Order

end CanvasOrder
