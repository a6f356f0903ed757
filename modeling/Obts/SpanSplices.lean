import Mathlib.Data.List.Basic
import Mathlib.Data.List.TakeDrop

/-!
# Splices into a text

Spans that stand one behind the other cut a text into the gaps between them and the values in them. When values
are written over the spans from the back, each lands between its gaps.
-/
namespace SpanSplices

open List

structure Span where
  (start stop : Nat)

section Splices
variable {α : Type*} {text : List α} {cursor start stop length : Nat} {span : Span}
  {spans : List Span} {values outside : List (List α)}

/-- The text from a start to a stop, as `slice` gives it. -/
def slice (text : List α) (start stop : Nat) : List α := (text.take stop).drop start

/-- What stands in a span. -/
def Span.cut (span : Span) (text : List α) : List α := slice text span.start span.stop

/-- The texts before each span and behind the last, from a cursor on. -/
def gaps (text : List α) : Nat → List Span → List (List α)
  | cursor, [] => [text.drop cursor]
  | cursor, span :: spans => slice text cursor span.start :: gaps text span.stop spans

/-- The texts before each span only. -/
def gapsBefore (text : List α) : Nat → List Span → List (List α)
  | _, [] => []
  | cursor, span :: spans => slice text cursor span.start :: gapsBefore text span.stop spans

/-- Values between gaps. -/
def weave : List (List α) → List (List α) → List α
  | gap :: gaps, value :: values => gap ++ value ++ weave gaps values
  | gap :: _, [] => gap
  | [], _ => []

/-- Spans that stand one behind the other, from a cursor on. -/
def Ascending (length : Nat) : Nat → List Span → Prop
  | cursor, [] => cursor ≤ length
  | cursor, span :: spans => cursor ≤ span.start ∧ span.start ≤ span.stop ∧ Ascending length span.stop spans

lemma Ascending.le_length (h : Ascending length cursor spans) : cursor ≤ length := by
  induction spans generalizing cursor with
  | nil => exact h
  | cons span spans ih =>
    obtain ⟨hstart, hstop, hrest⟩ := h
    have hlast := ih hrest
    omega

/-- Spans each of which ends before the next one starts. -/
lemma ascending_of_pairwise (hspans : spans.Pairwise fun left right => left.stop ≤ right.start)
    (hins : ∀ span ∈ spans, cursor ≤ span.start ∧ span.start ≤ span.stop ∧ span.stop ≤ length)
    (hcurs : cursor ≤ length) : Ascending length cursor spans := by
  induction spans generalizing cursor with
  | nil => exact hcurs
  | cons span spans ih =>
    rw [pairwise_cons] at hspans
    rw [forall_mem_cons] at hins
    obtain ⟨⟨hstart, hstop, hlen⟩, hoth⟩ := hins
    refine ⟨hstart, hstop, ih hspans.2 (fun other hother => ?_) hlen⟩
    exact ⟨hspans.1 other hother, (hoth other hother).2⟩

lemma take_append_slice (h : start ≤ stop) : text.take start ++ slice text start stop = text.take stop := by
  have hdrop : (text.take stop).take start = text.take start := by
    rw [take_take, Nat.min_eq_left h]
  rw [slice, ← hdrop, take_append_drop]

lemma slice_append_drop (h : start ≤ stop) : slice text start stop ++ text.drop stop = text.drop start := by
  by_cases hlen : start ≤ text.length
  · have hboth : text.take start ++ (slice text start stop ++ text.drop stop) =
        text.take start ++ text.drop start := by
      rw [← append_assoc, take_append_slice h, take_append_drop, take_append_drop]
    exact append_cancel_left hboth
  · rw [slice, drop_eq_nil_of_le (by rw [length_take]; omega), drop_eq_nil_of_le (by omega),
      drop_eq_nil_of_le (by omega), append_nil]

lemma length_slice (h : stop ≤ text.length) : (slice text start stop).length = stop - start := by
  rw [slice, length_drop, length_take]
  omega

lemma slice_slice {front back : Nat} (h : start + back ≤ stop) :
    slice (slice text start stop) front back = slice text (start + front) (start + back) := by
  rw [slice, slice, slice, take_drop, take_take, drop_drop, Nat.min_eq_left h]

/-- A text is woven of its gaps and of what stands between them. -/
lemma weave_gaps (h : Ascending text.length cursor spans) :
    weave (gaps text cursor spans) (spans.map fun span => span.cut text) = text.drop cursor := by
  induction spans generalizing cursor with
  | nil => rfl
  | cons span spans ih =>
    obtain ⟨hstart, hstop, hrest⟩ := h
    rw [gaps, map_cons, weave, ih hrest, Span.cut, append_assoc, slice_append_drop hstop, slice_append_drop hstart]

lemma length_gaps : (gaps text cursor spans).length = spans.length + 1 := by
  induction spans generalizing cursor with
  | nil => rfl
  | cons span spans ih => rw [gaps, length_cons, ih, length_cons]

lemma length_gapsBefore : (gapsBefore text cursor spans).length = spans.length := by
  induction spans generalizing cursor with
  | nil => rfl
  | cons span spans ih => rw [gapsBefore, length_cons, ih, length_cons]

lemma gaps_eq_append (text : List α) (spans : List Span) (cursor : Nat) :
    ∃ last, gaps text cursor spans = gapsBefore text cursor spans ++ [last] := by
  induction spans generalizing cursor with
  | nil => exact ⟨_, rfl⟩
  | cons span spans ih =>
    obtain ⟨last, hlast⟩ := ih span.stop
    exact ⟨last, by rw [gaps, gapsBefore, hlast, cons_append]⟩

/-- Equal gaps are equal before the spans. -/
lemma gapsBefore_congr {other : List α} {spans' : List Span} (h : gaps text 0 spans = gaps other 0 spans') :
    gapsBefore text 0 spans = gapsBefore other 0 spans' := by
  obtain ⟨last, hlast⟩ := gaps_eq_append text spans 0
  obtain ⟨last', hlast'⟩ := gaps_eq_append other spans' 0
  rw [hlast, hlast'] at h
  exact (append_inj' h rfl).1

/-- The gaps from a later cursor on. -/
lemma gapsBefore_modifyHead :
    gapsBefore text cursor spans = (gapsBefore text 0 spans).modifyHead (List.drop cursor) := by
  cases spans with
  | nil => rfl
  | cons span spans =>
    rw [gapsBefore, gapsBefore, modifyHead_cons, slice, slice, drop_zero]

/-- A span as it is counted from a later start. -/
def Span.shift (offset : Nat) (span : Span) : Span := ⟨span.start - offset, span.stop - offset⟩

/-- The gaps within a part of the text. -/
lemma gapsBefore_slice (hcurs : start ≤ cursor)
    (h : ∀ span ∈ spans, start ≤ span.start ∧ span.start ≤ span.stop ∧ span.stop ≤ stop) :
    gapsBefore (slice text start stop) (cursor - start) (spans.map (Span.shift start)) =
      gapsBefore text cursor spans := by
  induction spans generalizing cursor with
  | nil => rfl
  | cons span spans ih =>
    rw [forall_mem_cons] at h
    obtain ⟨⟨hstart, hspan, hstop⟩, hrest⟩ := h
    have hslice : slice (slice text start stop) (cursor - start) (span.start - start) =
        slice text cursor span.start := by
      rw [slice_slice (by omega), Nat.add_sub_of_le hcurs, Nat.add_sub_of_le hstart]
    rw [map_cons, gapsBefore, gapsBefore, Span.shift, hslice, ih (by omega) hrest]

def splice (text : List α) (span : Span) (value : List α) : List α :=
  slice text 0 span.start ++ value ++ text.drop span.stop

/-- Writes values over their spans, the last first. -/
def spliceAll (text : List α) (edits : List (Span × List α)) : List α :=
  edits.foldr (fun edit text => splice text edit.1 edit.2) text

/-- Before the spans the text stays, behind the cursor the values stand between the gaps. -/
lemma spliceAll_eq {edits : List (Span × List α)} (h : Ascending text.length cursor (edits.map Prod.fst)) :
    spliceAll text edits
      = text.take cursor ++ weave (gaps text cursor (edits.map Prod.fst)) (edits.map Prod.snd) := by
  induction edits generalizing cursor with
  | nil => exact (take_append_drop cursor text).symm
  | cons edit edits ih =>
    obtain ⟨hstart, hstop, hrest⟩ := h
    have hlen : (text.take edit.1.stop).length = edit.1.stop :=
      length_take_of_le hrest.le_length
    have hfront : ∀ rest, slice (text.take edit.1.stop ++ rest) 0 edit.1.start = text.take edit.1.start := by
      intro rest
      rw [slice, drop_zero, take_append_of_le_length (by omega), take_take, Nat.min_eq_left hstop]
    rw [spliceAll, foldr_cons, ← spliceAll, ih hrest, splice, hfront, drop_left' hlen, map_cons,
      map_cons, gaps, weave, ← take_append_slice hstart]
    simp

/-- Values that stand in their spans already need not be written. -/
lemma spliceAll_filter {κ : Type*} {keys : List κ} {edit : κ → Span × List α} {changes : κ → Bool}
    (h : Ascending text.length cursor ((keys.map edit).map Prod.fst))
    (hsame : ∀ key ∈ keys, changes key = false → (edit key).2 = (edit key).1.cut text) :
    spliceAll text ((keys.filter changes).map edit) = spliceAll text (keys.map edit) := by
  induction keys generalizing cursor with
  | nil => rfl
  | cons key keys ih =>
    obtain ⟨hstart, hstop, hrest⟩ := h
    rw [forall_mem_cons] at hsame
    have hlater := ih hrest hsame.2
    cases hchan : changes key with
    | true =>
      rw [filter_cons_of_pos hchan]
      exact congrArg (fun rest => splice rest (edit key).1 (edit key).2) hlater
    | false =>
      rw [filter_cons_of_neg (by simp [hchan]), hlater]
      have hlen : (text.take (edit key).1.stop).length = (edit key).1.stop :=
        length_take_of_le hrest.le_length
      have hwhole : spliceAll text ((key :: keys).map edit)
          = splice (spliceAll text (keys.map edit)) (edit key).1 (edit key).2 := rfl
      rw [hwhole, spliceAll_eq hrest, splice, slice, drop_zero, take_append_of_le_length (by omega),
        take_take, Nat.min_eq_left hstop, drop_left' hlen, hsame.1 hchan, Span.cut,
        take_append_slice hstop]

/-- Where the values of a text stand, and what is outside of them. -/
structure Laid (text : List α) (spans : List Span) (outside values : List (List α)) : Prop where
  ascending : Ascending text.length 0 spans
  gaps_eq : gaps text 0 spans = outside
  values_eq : spans.map (fun span => span.cut text) = values

lemma Laid.eq_weave (h : Laid text spans outside values) : text = weave outside values := by
  have hweave := weave_gaps h.ascending
  rw [h.gaps_eq, h.values_eq, drop_zero] at hweave
  exact hweave.symm

lemma exists_spans : ∀ (outside : List (List α)) (front : List α),
    outside.length = values.length + 1 →
      ∃ spans, Ascending (front ++ weave outside values).length front.length spans ∧
      gaps (front ++ weave outside values) front.length spans = outside ∧
      spans.map (fun span => span.cut (front ++ weave outside values)) = values := by
  induction values with
  | nil =>
    intro outside front hlen
    obtain ⟨gap, rfl⟩ := length_eq_one_iff.mp hlen
    refine ⟨[], ?_, ?_, rfl⟩
    · rw [Ascending, length_append]
      omega
    · rw [gaps, drop_left]
      rfl
  | cons value values ih =>
    intro outside front hlen
    cases outside with
    | nil => cases hlen
    | cons gap outside =>
      obtain ⟨spans, hasc, hgaps, hvals⟩ := ih outside (front ++ gap ++ value) (by simpa using hlen)
      have htext : front ++ weave (gap :: outside) (value :: values) =
          front ++ gap ++ value ++ weave outside values := by
        rw [weave]
        simp
      have hstart : (front ++ gap).length ≤ (front ++ gap ++ value).length := by
        simp only [length_append]
        omega
      have hfront : front.length ≤ (front ++ gap).length := by
        rw [length_append]
        omega
      rw [htext]
      refine ⟨⟨(front ++ gap).length, (front ++ gap ++ value).length⟩ :: spans, ⟨hfront, hstart, hasc⟩, ?_, ?_⟩
      · rw [gaps, hgaps, slice, append_assoc (front ++ gap), take_left, drop_left]
      · rw [map_cons, hvals, Span.cut, slice, take_left, drop_left]

/-- Values between gaps stand in spans. -/
lemma exists_laid (h : outside.length = values.length + 1) :
    ∃ spans, Laid (weave outside values) spans outside values := by
  obtain ⟨spans, hasc, hgaps, hvals⟩ := exists_spans outside [] h
  exact ⟨spans, hasc, hgaps, hvals⟩

/-- The text with a placeholder in the spans. -/
def masked (placeholder text : List α) (spans : List Span) : List α :=
  weave (gaps text 0 spans) (spans.map fun _ => placeholder)

lemma Laid.masked_eq (h : Laid text spans outside values) (placeholder : List α) :
    masked placeholder text spans = weave outside (values.map fun _ => placeholder) := by
  rw [masked, h.gaps_eq, ← h.values_eq, map_map]
  rfl

end Splices

end SpanSplices
