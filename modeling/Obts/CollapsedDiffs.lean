import Obts.ConflictDiffs
import Obts.InsertionOrder
import Obts.SpanSplices

/-!
# Collapsed conflict diffs

Long runs of unchanged rows that are not near a change are hidden behind a gap. Three loops over the indices mark
the visible rows, collect the gaps and put out the rest in hunks. They agree on one cut of the rows into blocks,
each of hidden rows and shown rows behind them.
-/
namespace CollapsedDiffs

open InsertionOrder TextLines ConflictDiffs SpanSplices List
open List (range' range'_append_1)

structure DiffLineRange where
  (start count : Nat)

structure CollapsedDiffGap where
  id : String
  hidden : Nat
  (server device : DiffLineRange)

inductive ConflictDiffDisplayItem where
  | row (row : ConflictDiffRow)
  | hunk (id : String) (gap : Option CollapsedDiffGap) (lines : Option (DiffLineRange × DiffLineRange))

def minCollapsedLines : Nat := 4

def isChange : ConflictDiffRow → Bool
  | .change _ => true
  | .context _ => false

def idOf : ConflictDiffRow → String
  | .context row => row.id
  | .change row => row.id

/-- The line number of a row on a side. -/
def Side.lineNumber : Side → ConflictDiffRow → Option Nat
  | .server, .context row => some row.serverLine
  | .device, .context row => some row.deviceLine
  | .server, .change row => row.serverLine
  | .device, .change row => row.deviceLine

def lineNumbers (side : Side) (rows : List ConflictDiffRow) : List Nat := rows.filterMap (Side.lineNumber side)

variable (rows : List ConflictDiffRow)

def lineRange (side : Side) : DiffLineRange :=
  let lines := lineNumbers side rows
  ⟨lines.head?.getD 0, lines.length⟩

/-- Marks the rows around the change at an index. -/
def markAround (length context : Nat) (visible : List Bool) (index : Nat) : List Bool :=
  let first := index - context
  let last := min (length - 1) (index + context)
  (range' first (last + 1 - first)).foldl (fun visible offset => visible.set offset true) visible

def visibleRows (context : Nat) : List Bool :=
  rows.zipIdx.foldl (fun visible entry =>
    if isChange entry.1 then markAround rows.length context visible entry.2 else visible) (rows.map isChange)

/-- The end of a run that goes on while a test holds of the next index. -/
def runEnd (length : Nat) (goesOn : Nat → Bool) (stop : Nat) : Nat :=
  if stop + 1 < length && goesOn (stop + 1) then runEnd length goesOn (stop + 1) else stop
termination_by length - stop
decreasing_by simp_all; omega

lemma le_runEnd (length : Nat) (goesOn : Nat → Bool) (stop : Nat) : stop ≤ runEnd length goesOn stop := by
  induction stop using runEnd.induct length goesOn with
  | case1 stop h ih =>
    rw [runEnd, if_pos h]
    omega
  | case2 stop h =>
    rw [runEnd, if_neg h]

/-- The gap of a run of hidden rows. -/
def gapOf (hidden : List ConflictDiffRow) : CollapsedDiffGap :=
  ⟨"gap-" ++ (hidden.head?.map idOf).getD "", hidden.length, lineRange hidden .server, lineRange hidden .device⟩

/-- The gaps under the indices where they start. A short run, or one that was expanded, becomes visible. -/
def collectGaps (rows : List ConflictDiffRow) (visible : List Bool) (expandedGaps : String → Bool) (start : Nat) :
    List (Nat × CollapsedDiffGap) :=
  if start < rows.length then
    if visible[start]? = some true then collectGaps rows visible expandedGaps (start + 1)
    else
      let stop := runEnd rows.length (fun index => visible[index]? ≠ some true) start
      let gap := gapOf (slice rows start (stop + 1))
      if gap.hidden < minCollapsedLines || expandedGaps gap.id then collectGaps rows visible expandedGaps (stop + 1)
      else (start, gap) :: collectGaps rows visible expandedGaps (stop + 1)
  else []
termination_by rows.length - start
decreasing_by
  · omega
  all_goals
    have hle := le_runEnd rows.length (fun index => visible[index]? ≠ some true) start
    omega

/-- The last item when the rows end with a gap. -/
def trailingItem : Option CollapsedDiffGap → List ConflictDiffDisplayItem
  | some gap => [.hunk ("trailing-" ++ gap.id) (some gap) none]
  | none => []

def hunkItem (pendingGap : Option CollapsedDiffGap) (hunkRows : List ConflictDiffRow) : ConflictDiffDisplayItem :=
  .hunk ("hunk-" ++ (hunkRows.head?.map idOf).getD "") pendingGap
    (some (lineRange hunkRows .server, lineRange hunkRows .device))

/-- The loop that puts out the items, for so many rounds at most. -/
def emitItems (rows : List ConflictDiffRow) (gaps : List (Nat × CollapsedDiffGap)) :
    Nat → Option CollapsedDiffGap → Nat → List ConflictDiffDisplayItem
  | 0, pendingGap, _ => trailingItem pendingGap
  | rounds + 1, pendingGap, index =>
    if index < rows.length then
      match valueAt gaps index with
      | some gap => emitItems rows gaps rounds (some gap) (index + gap.hidden)
      | none =>
        let stop := runEnd rows.length (fun index => (valueAt gaps index).isNone) index
        let hunkRows := slice rows index (stop + 1)
        hunkItem pendingGap hunkRows :: hunkRows.map .row ++ emitItems rows gaps rounds none (stop + 1)
    else trailingItem pendingGap

/-- Every round goes past a row, so that as many rounds as there are rows are enough. -/
def collapseConflictDiff (expandedGaps : String → Bool) (context : Nat) : List ConflictDiffDisplayItem :=
  emitItems rows (collectGaps rows (visibleRows rows context) expandedGaps 0) rows.length none 0

section Visible
variable {rows : List ConflictDiffRow} {visible : List Bool} {context index i : Nat}

lemma foldl_set_iff (offsets : List Nat) (visible : List Bool) :
    (offsets.foldl (fun visible offset => visible.set offset true) visible)[i]? = some true ↔
      visible[i]? = some true ∨ i ∈ offsets ∧ i < visible.length := by
  induction offsets generalizing visible with
  | nil => simp
  | cons offset offsets ih =>
    rw [foldl_cons, ih, getElem?_set, length_set]
    by_cases heq : offset = i
    · subst heq
      by_cases hlen : offset < visible.length <;> simp [hlen]
    · simp [heq, Ne.symm heq]

lemma length_markAround (length context : Nat) (visible : List Bool) (index : Nat) :
    (markAround length context visible index).length = visible.length := by
  rw [markAround]
  generalize range' _ _ = offsets
  induction offsets generalizing visible with
  | nil => rfl
  | cons offset offsets ih => rw [foldl_cons, ih, length_set]

lemma markAround_iff (hlen : visible.length = rows.length) :
    (markAround rows.length context visible index)[i]? = some true ↔
      visible[i]? = some true ∨ i < rows.length ∧ index ≤ i + context ∧ i ≤ index + context := by
  simp only [markAround, foldl_set_iff, mem_range'_1, hlen]
  refine or_congr_right ?_
  omega

lemma foldl_markAround_iff (entries : List (ConflictDiffRow × Nat)) (hlen : visible.length = rows.length) :
    (entries.foldl (fun visible entry =>
        if isChange entry.1 then markAround rows.length context visible entry.2 else visible) visible)[i]? =
          some true ↔
      visible[i]? = some true ∨ i < rows.length ∧ ∃ entry ∈ entries, isChange entry.1 ∧
        entry.2 ≤ i + context ∧ i ≤ entry.2 + context := by
  induction entries generalizing visible with
  | nil => simp
  | cons entry entries ih =>
    rw [foldl_cons]
    by_cases hchg : isChange entry.1 = true
    · rw [if_pos hchg, ih ((length_markAround _ _ _ _).trans hlen), markAround_iff hlen]
      simp only [mem_cons, exists_eq_or_imp, hchg, true_and]
      tauto
    · rw [if_neg hchg, ih hlen]
      simp [hchg]

/-- A row is visible when it is a change or within reach of one. -/
lemma visibleRows_iff : (visibleRows rows context)[i]? = some true ↔
    i < rows.length ∧ ∃ j row, rows[j]? = some row ∧ isChange row ∧ j ≤ i + context ∧ i ≤ j + context := by
  rw [visibleRows, foldl_markAround_iff _ (length_map _)]
  constructor
  · rintro (hchg | ⟨hi, ⟨row, j⟩, hentry, hchg, hnear⟩)
    · rw [getElem?_map, Option.map_eq_some_iff] at hchg
      obtain ⟨row, hrow, hchg⟩ := hchg
      exact ⟨(List.getElem?_eq_some_iff.mp hrow).1, i, row, hrow, hchg, by omega, by omega⟩
    · exact ⟨hi, j, row, mem_zipIdx_iff_getElem?.mp hentry, hchg, hnear⟩
  · rintro ⟨hi, j, row, hrow, hchg, hnear⟩
    exact Or.inr ⟨hi, (row, j), mem_zipIdx_iff_getElem?.mpr hrow, hchg, hnear⟩

end Visible

section Gaps
variable {rows : List ConflictDiffRow} {visible : List Bool} {expandedGaps : String → Bool}
  {start i : Nat} {gap : CollapsedDiffGap}

lemma runEnd_spec {length : Nat} (goesOn : Nat → Bool) {stop : Nat} (h : stop < length) :
    runEnd length goesOn stop < length ∧ (∀ i, stop < i → i ≤ runEnd length goesOn stop → goesOn i) ∧
      (runEnd length goesOn stop + 1 < length → goesOn (runEnd length goesOn stop + 1) = false) := by
  induction stop using runEnd.induct length goesOn with
  | case1 stop hnext ih =>
    rw [runEnd, if_pos hnext]
    rw [Bool.and_eq_true, decide_eq_true_eq] at hnext
    obtain ⟨hlt, hall, hend⟩ := ih hnext.1
    refine ⟨hlt, fun i hi hle => ?_, hend⟩
    by_cases heq : i = stop + 1
    · exact heq ▸ hnext.2
    · exact hall i (by omega) hle
  | case2 stop hnext =>
    rw [runEnd, if_neg hnext]
    refine ⟨h, fun i hi hle => by omega, fun hlt => ?_⟩
    simpa [hlt] using hnext

/-- What the loop knows of a gap under its index. -/
structure GapAt (rows : List ConflictDiffRow) (visible : List Bool) (start : Nat)
    (gap : CollapsedDiffGap) : Prop where
  long : minCollapsedLines ≤ gap.hidden
  inside : start + gap.hidden ≤ rows.length
  gap_eq : gap = gapOf (slice rows start (start + gap.hidden))
  hidden : ∀ i, start ≤ i → i < start + gap.hidden → visible[i]? ≠ some true
  ends : start + gap.hidden < rows.length → visible[start + gap.hidden]? = some true

lemma gapAt_of_mem (h : (start, gap) ∈ collectGaps rows visible expandedGaps i) : GapAt rows visible start gap := by
  induction i using collectGaps.induct rows visible expandedGaps with
  | case1 i hi hvis ih =>
    rw [collectGaps, if_pos hi, if_pos hvis] at h
    exact ih h
  | case2 i hi hvis stop found hshort ih =>
    rw [collectGaps, if_pos hi, if_neg hvis] at h
    rw [if_pos hshort] at h
    exact ih h
  | case3 i hi hvis stop found hshort ih =>
    rw [collectGaps, if_pos hi, if_neg hvis] at h
    rw [if_neg hshort] at h
    rcases mem_cons.mp h with heq | hrest
    · obtain ⟨rfl, hgap⟩ := Prod.mk.inj heq
      obtain ⟨hlt, hall, hend⟩ := runEnd_spec (fun index => decide (visible[index]? ≠ some true)) hi
      have hle := le_runEnd rows.length (fun index => decide (visible[index]? ≠ some true)) start
      have hhidd : gap.hidden = stop + 1 - start := by
        rw [hgap]
        exact length_slice hlt
      have hstop : start + gap.hidden = stop + 1 := by omega
      constructor
      · rw [Bool.or_eq_true, decide_eq_true_eq, not_or] at hshort
        exact hgap ▸ Nat.le_of_not_lt hshort.1
      · rw [hstop]
        exact hlt
      · rw [hstop]
        exact hgap
      · intro i hi hlast
        by_cases heq : i = start
        · exact heq ▸ hvis
        · have hgoes := hall i (by omega) (by omega)
          simpa using hgoes
      · rw [hstop]
        intro hnext
        have hends : decide (visible[stop + 1]? ≠ some true) = false := hend hnext
        simpa using hends
    · exact ih hrest
  | case4 i hi =>
    rw [collectGaps, if_neg hi] at h
    cases h

/-- Behind a gap no other starts. -/
lemma GapAt.not_next {next : CollapsedDiffGap} (h : GapAt rows visible start gap)
    (hnext : GapAt rows visible (start + gap.hidden) next) : False := by
  have hlong := hnext.long
  have hins := hnext.inside
  have hmin : minCollapsedLines = 4 := rfl
  exact hnext.hidden _ le_rfl (by omega) (h.ends (by omega))

end Gaps

/-- Hidden rows, from `start` to `middle`, and shown rows behind them, to `stop`. -/
structure Block where
  (start middle stop : Nat)

namespace Block

variable (b : Block)

def hidden (rows : List ConflictDiffRow) : List ConflictDiffRow := slice rows b.start b.middle

def shown (rows : List ConflictDiffRow) : List ConflictDiffRow := slice rows b.middle b.stop

/-- The gap that stands for the hidden rows. -/
def gap (rows : List ConflictDiffRow) : Option CollapsedDiffGap :=
  if b.start < b.middle then some (gapOf (b.hidden rows)) else none

/-- The items of a block: a hunk, with its gap, before the shown rows. -/
def items (rows : List ConflictDiffRow) : List ConflictDiffDisplayItem :=
  if b.middle < b.stop then hunkItem (b.gap rows) (b.shown rows) :: (b.shown rows).map .row
  else trailingItem (b.gap rows)

end Block

/-- Blocks one behind the other, from an index to the end. -/
def Covers (length : Nat) : Nat → List Block → Prop
  | index, [] => index = length
  | index, b :: blocks => b.start = index ∧ b.start ≤ b.middle ∧ b.middle ≤ b.stop ∧ Covers length b.stop blocks

section Emission
variable {rows : List ConflictDiffRow} {visible : List Bool} {gaps : List (Nat × CollapsedDiffGap)}
  {rounds index : Nat}

lemma emitItems_end (pendingGap : Option CollapsedDiffGap) (h : rows.length ≤ index) :
    emitItems rows gaps rounds pendingGap index = trailingItem pendingGap := by
  cases rounds with
  | zero => rfl
  | succ rounds => rw [emitItems, if_neg (Nat.not_lt.mpr h)]

/-- Where no gap starts, a hunk is put out that ends before the next gap. -/
lemma emitItems_hunk (rounds : Nat) (pendingGap : Option CollapsedDiffGap) (hindex : index < rows.length)
    (hgap : valueAt gaps index = none) : ∃ stop, index < stop ∧ stop ≤ rows.length ∧
      emitItems rows gaps (rounds + 1) pendingGap index = hunkItem pendingGap (slice rows index stop) ::
        (slice rows index stop).map .row ++ emitItems rows gaps rounds none stop := by
  obtain ⟨hlt, -, -⟩ := runEnd_spec (fun index => (valueAt gaps index).isNone) hindex
  have hle := le_runEnd rows.length (fun index => (valueAt gaps index).isNone) index
  refine ⟨_, Nat.lt_succ_of_le hle, hlt, ?_⟩
  rw [emitItems, if_pos hindex, hgap]

/-- The items are those of blocks whose hidden rows are not visible. -/
lemma emitItems_blocks (hgaps : ∀ start gap, (start, gap) ∈ gaps → GapAt rows visible start gap)
    (hroun : rows.length - index ≤ rounds) (hindex : index ≤ rows.length) :
    ∃ blocks, Covers rows.length index blocks ∧
      emitItems rows gaps rounds none index = blocks.flatMap (fun b => b.items rows) ∧
      ∀ b ∈ blocks, ∀ i, b.start ≤ i → i < b.middle → visible[i]? ≠ some true := by
  induction hleft : rows.length - index using Nat.strong_induction_on generalizing index rounds with
  | _ left ih =>
    by_cases hend : index = rows.length
    · exact ⟨[], hend, emitItems_end none hend.ge, fun _ h => nomatch h⟩
    have hins : index < rows.length := by omega
    obtain ⟨rounds, rfl⟩ : ∃ n, rounds = n + 1 := ⟨rounds - 1, by omega⟩
    cases hgap : valueAt gaps index with
    | none =>
      obtain ⟨stop, hlt, hstop, hitems⟩ := emitItems_hunk rounds none hins hgap
      have hroun' : rows.length - stop ≤ rounds := by omega
      obtain ⟨blocks, hcov, hrest, hhidd⟩ := ih (rows.length - stop) (by omega) hroun' hstop rfl
      refine ⟨⟨index, index, stop⟩ :: blocks, ⟨rfl, le_rfl, hlt.le, hcov⟩, ?_, ?_⟩
      · rw [hitems, hrest, flatMap_cons, Block.items, if_pos hlt, Block.gap, if_neg (Nat.lt_irrefl _)]
        rfl
      · exact forall_mem_cons.mpr ⟨fun i hi hlast => absurd hlast (Nat.not_lt.mpr hi), hhidd⟩
    | some gap =>
      have hat := hgaps index gap (mem_of_valueAt hgap)
      have hlong : 4 ≤ gap.hidden := hat.long
      have hmid : index < index + gap.hidden := by omega
      have hblock : ∀ stop, (Block.mk index (index + gap.hidden) stop).gap rows = some gap := by
        intro stop
        rw [Block.gap, if_pos hmid, Block.hidden, ← hat.gap_eq]
      rw [emitItems, if_pos hins, hgap]
      dsimp only
      by_cases hlast : index + gap.hidden = rows.length
      · refine ⟨[⟨index, index + gap.hidden, index + gap.hidden⟩], ⟨rfl, hmid.le, le_rfl, hlast⟩, ?_, ?_⟩
        · rw [emitItems_end _ hlast.ge, flatMap_singleton, Block.items, if_neg (Nat.lt_irrefl _), hblock]
        · exact fun b hb => mem_singleton.mp hb ▸ hat.hidden
      have hnone : valueAt gaps (index + gap.hidden) = none := by
        cases hnext : valueAt gaps (index + gap.hidden) with
        | none => rfl
        | some next => exact (hat.not_next (hgaps _ next (mem_of_valueAt hnext))).elim
      have hbeh : index + gap.hidden < rows.length := lt_of_le_of_ne hat.inside hlast
      obtain ⟨rounds, rfl⟩ : ∃ n, rounds = n + 1 := ⟨rounds - 1, by omega⟩
      obtain ⟨stop, hlt, hstop, hitems⟩ := emitItems_hunk rounds (some gap) hbeh hnone
      have hroun' : rows.length - stop ≤ rounds := by omega
      obtain ⟨blocks, hcov, hrest, hhidd⟩ := ih (rows.length - stop) (by omega) hroun' hstop rfl
      refine ⟨⟨index, index + gap.hidden, stop⟩ :: blocks, ⟨rfl, hmid.le, hlt.le, hcov⟩, ?_, ?_⟩
      · rw [hitems, hrest, flatMap_cons, Block.items, if_pos hlt, hblock]
        rfl
      · exact forall_mem_cons.mpr ⟨hat.hidden, hhidd⟩

end Emission

section Ranges
variable {rows : List ConflictDiffRow} {side : Side} {start stop : Nat}

/-- The lines that a range stands for. -/
def DiffLineRange.lines (range : DiffLineRange) : List Nat := range' range.start range.count

/-- The lines of a side are numbered one by one. -/
def Consecutive (side : Side) (rows : List ConflictDiffRow) : Prop :=
  ∃ first count, lineNumbers side rows = range' first count

lemma lineNumbers_append (rows others : List ConflictDiffRow) :
    lineNumbers side (rows ++ others) = lineNumbers side rows ++ lineNumbers side others := filterMap_append

/-- A part of consecutive numbers is a range of its own. -/
lemma range'_of_append {first count : Nat} {front part back : List Nat}
    (h : front ++ part ++ back = range' first count) : part = range' (first + front.length) part.length := by
  have hlen : front.length + part.length + back.length = count := by
    simpa [Nat.add_assoc] using congrArg length h
  have hsplit : range' first count = range' first front.length ++ range' (first + front.length) part.length ++
      range' (first + (front.length + part.length)) back.length := by
    rw [← hlen, range'_append_1, range'_append_1]
  rw [hsplit] at h
  have hfront := (append_inj' h (by simp)).1
  exact (append_inj hfront (by simp)).2

lemma lines_lineRange (h : Consecutive side rows) : (lineRange rows side).lines = lineNumbers side rows := by
  obtain ⟨first, count, hlines⟩ := h
  rw [DiffLineRange.lines, lineRange, hlines]
  cases count with
  | zero => rfl
  | succ count => simp [range'_succ]

lemma slice_parts (rows : List ConflictDiffRow) (h : start ≤ stop) :
    rows = rows.take start ++ slice rows start stop ++ rows.drop stop := by
  rw [take_append_slice h, take_append_drop]

lemma Consecutive.slice (hrows : Consecutive side rows) (h : start ≤ stop) :
    Consecutive side (slice rows start stop) := by
  obtain ⟨first, count, hlines⟩ := hrows
  rw [slice_parts rows h, lineNumbers_append, lineNumbers_append] at hlines
  exact ⟨_, _, range'_of_append hlines⟩

end Ranges

variable {row : ConflictDiffRow}

section Numbered
variable {diff : DiffLibrary} {side : Side}

/-- The next line number of a side. -/
def Side.counter : Side → Counters → Nat
  | .server, counters => counters.serverLine
  | .device, counters => counters.deviceLine

/-- The rows of a step are numbered from the counter before it to the counter behind it. -/
def NumberedTo (side : Side) (counters : Counters) (step : List ConflictDiffRow × Counters) : Prop :=
  ∃ count, lineNumbers side step.1 = range' (Side.counter side counters) count ∧
    Side.counter side step.2 = Side.counter side counters + count

lemma NumberedTo.cons {counters next : Counters} {step : List ConflictDiffRow × Counters}
    (hrow : NumberedTo side counters ([row], next)) (h : NumberedTo side next step) :
    NumberedTo side counters (row :: step.1, step.2) := by
  obtain ⟨here, hhere, hnext⟩ := hrow
  obtain ⟨count, hrest, hlast⟩ := h
  refine ⟨here + count, ?_, ?_⟩
  · rw [← singleton_append, lineNumbers_append, hhere, hrest, hnext, range'_append_1]
  · rw [hlast, hnext, Nat.add_assoc]

lemma numberedTo_contextRows (side : Side) (counters : Counters) (texts : List Text) :
    NumberedTo side counters (contextRows counters texts) := by
  induction texts generalizing counters with
  | nil => exact ⟨0, rfl, rfl⟩
  | cons text texts ih =>
    refine NumberedTo.cons ?_ (ih ⟨counters.serverLine + 1, counters.deviceLine + 1, counters.contextIndex + 1,
      counters.changeIndex⟩)
    cases side <;> exact ⟨1, rfl, rfl⟩

lemma numberedTo_changeRows (diff : DiffLibrary) (side : Side) (counters : Counters)
    (texts : List (Option Text × Option Text)) : NumberedTo side counters (changeRows diff counters texts) := by
  induction texts generalizing counters with
  | nil => exact ⟨0, rfl, rfl⟩
  | cons pair texts ih =>
    obtain ⟨serverText, deviceText⟩ := pair
    refine NumberedTo.cons ?_ (ih ⟨(numberLine serverText counters.serverLine).2,
      (numberLine deviceText counters.deviceLine).2, counters.contextIndex, counters.changeIndex + 1⟩)
    cases side with
    | server =>
      cases serverText with
      | none => exact ⟨0, rfl, rfl⟩
      | some text => exact ⟨1, rfl, rfl⟩
    | device =>
      cases deviceText with
      | none => exact ⟨0, rfl, rfl⟩
      | some text => exact ⟨1, rfl, rfl⟩

lemma lineNumbers_buildRows (parts : List Part) (counters : Counters) (servers devices : List Text) :
    ∃ count, lineNumbers side (buildRows diff counters servers devices parts)
      = range' (Side.counter side counters) count := by
  induction parts generalizing counters servers devices with
  | nil =>
    obtain ⟨count, hcount, -⟩ := numberedTo_changeRows diff side counters (pairLines servers devices)
    exact ⟨count, hcount⟩
  | cons part parts ih =>
    rw [buildRows]
    by_cases hsame : (!part.added && !part.removed) = true
    · rw [if_pos hsame]
      obtain ⟨changed, hchg, hbeh⟩ := numberedTo_changeRows diff side counters (pairLines servers devices)
      obtain ⟨unchanged, hcont, hnext⟩ := numberedTo_contextRows side
        (changeRows diff counters (pairLines servers devices)).2 (splitLines part.value)
      obtain ⟨count, hrest⟩ := ih (contextRows (changeRows diff counters (pairLines servers devices)).2
        (splitLines part.value)).2 [] []
      refine ⟨changed + unchanged + count, ?_⟩
      rw [lineNumbers_append, lineNumbers_append, hchg, hcont, hrest, hnext, hbeh, Nat.add_assoc,
        range'_append_1, range'_append_1]
    · rw [if_neg hsame]
      exact ih counters _ _

/-- The rows of a conflict are numbered line by line on both sides. -/
lemma consecutive_buildConflictDiff (diff : DiffLibrary) (file : ConflictReviewFile) (side : Side) :
    Consecutive side (buildConflictDiff diff file) := by
  rw [buildConflictDiff]
  by_cases hkind : file.contentKind ≠ .text
  · rw [if_pos hkind]
    exact ⟨1, 0, rfl⟩
  · rw [if_neg hkind]
    exact ⟨_, lineNumbers_buildRows _ _ _ _⟩

end Numbered

section Display
variable {rows : List ConflictDiffRow} {side : Side} {b : Block} {blocks : List Block}
  {index length : Nat}

variable (items : List ConflictDiffDisplayItem)

/-- The rows that are put out. -/
def emittedRows : List ConflictDiffRow :=
  items.filterMap fun item =>
    match item with
    | .row row => some row
    | .hunk _ _ _ => none

/-- The gaps that are put out. -/
def emittedGaps : List CollapsedDiffGap :=
  items.filterMap fun item =>
    match item with
    | .row _ => none
    | .hunk _ gap _ => gap

def CollapsedDiffGap.range (gap : CollapsedDiffGap) : Side → DiffLineRange
  | .server => gap.server
  | .device => gap.device

/-- Items that show rows block by block. -/
structure Shows (rows : List ConflictDiffRow) (context : Nat) (items : List ConflictDiffDisplayItem)
    (blocks : List Block) : Prop where
  covers : Covers rows.length 0 blocks
  all_rows : blocks.flatMap (fun b => b.hidden rows ++ b.shown rows) = rows
  all_items : items = blocks.flatMap fun b => b.items rows
  emitted : emittedRows items = blocks.flatMap fun b => b.shown rows
  gaps : emittedGaps items = blocks.filterMap fun b => b.gap rows
  counted : ∀ b ∈ blocks, (b.hidden rows).length = ((b.gap rows).map CollapsedDiffGap.hidden).getD 0
  far : ∀ b ∈ blocks, ∀ i, b.start ≤ i → i < b.middle → ∀ j row, rows[j]? = some row → isChange row = true →
    i + context < j ∨ j + context < i
  hidden_context : ∀ b ∈ blocks, ∀ row ∈ b.hidden rows, isChange row = false
  changes : changedRows (emittedRows items) = changedRows rows

/-- Ranges that are the line numbers of their rows. -/
structure RangesExact (rows : List ConflictDiffRow) (side : Side) (b : Block) : Prop where
  gap_lines : ∀ gap, b.gap rows = some gap → (gap.range side).lines = lineNumbers side (b.hidden rows)
  hunk_lines : (lineRange (b.shown rows) side).lines = lineNumbers side (b.shown rows)

lemma Covers.flatMap_rows (h : Covers rows.length index blocks) :
    blocks.flatMap (fun b => b.hidden rows ++ b.shown rows) = rows.drop index := by
  induction blocks generalizing index with
  | nil =>
    have hindex : index = rows.length := h
    rw [hindex, drop_length, flatMap_nil]
  | cons b blocks ih =>
    obtain ⟨rfl, hmid, hstop, hrest⟩ := h
    rw [flatMap_cons, ih hrest, Block.hidden, Block.shown, append_assoc, slice_append_drop hstop,
      slice_append_drop hmid]

lemma Covers.le_length (h : Covers length index blocks) : index ≤ length := by
  induction blocks generalizing index with
  | nil => exact Nat.le_of_eq h
  | cons b blocks ih =>
    obtain ⟨rfl, hmid, hstop, hrest⟩ := h
    have hlen := ih hrest
    omega

lemma Covers.bounds (h : Covers length index blocks) (hb : b ∈ blocks) :
    b.start ≤ b.middle ∧ b.middle ≤ b.stop ∧ b.stop ≤ length := by
  induction blocks generalizing index with
  | nil => cases hb
  | cons first blocks ih =>
    obtain ⟨-, hmid, hstop, hrest⟩ := h
    rcases mem_cons.mp hb with rfl | hb
    · exact ⟨hmid, hstop, hrest.le_length⟩
    · exact ih hrest hb

lemma slice_of_le {start stop : Nat} (h : stop ≤ start) : slice rows start stop = [] :=
  drop_eq_nil_of_le ((length_take_le _ _).trans h)

lemma emittedRows_items (b : Block) : emittedRows (b.items rows) = b.shown rows := by
  rw [Block.items]
  by_cases hshown : b.middle < b.stop
  · rw [if_pos hshown]
    simp [emittedRows, hunkItem]
  have hempty : b.shown rows = [] := slice_of_le (Nat.le_of_not_lt hshown)
  rw [if_neg hshown, hempty]
  cases b.gap rows <;> rfl

lemma emittedGaps_items (b : Block) : emittedGaps (b.items rows) = (b.gap rows).toList := by
  rw [Block.items]
  by_cases hshown : b.middle < b.stop
  · rw [if_pos hshown]
    cases b.gap rows <;> simp [emittedGaps, hunkItem]
  · rw [if_neg hshown]
    cases b.gap rows <;> rfl

lemma length_hidden (b : Block) : (b.hidden rows).length = ((b.gap rows).map CollapsedDiffGap.hidden).getD 0 := by
  rw [Block.gap]
  by_cases hhidd : b.start < b.middle
  · rw [if_pos hhidd]
    rfl
  have hempty : b.hidden rows = [] := slice_of_le (Nat.le_of_not_lt hhidd)
  rw [if_neg hhidd, hempty]
  rfl

lemma exists_of_mem_hidden (h : row ∈ b.hidden rows) : ∃ i, b.start ≤ i ∧ i < b.middle ∧ rows[i]? = some row := by
  obtain ⟨i, hi⟩ := mem_iff_getElem?.mp h
  rw [Block.hidden, slice, getElem?_drop, getElem?_take] at hi
  by_cases hlt : b.start + i < b.middle
  · exact ⟨b.start + i, Nat.le_add_right _ _, hlt, by simpa [hlt] using hi⟩
  · simp [hlt] at hi

lemma changedRows_flatMap_shown (hhidd : ∀ b ∈ blocks, ∀ row ∈ b.hidden rows, isChange row = false) :
    changedRows (blocks.flatMap fun b => b.shown rows)
      = changedRows (blocks.flatMap fun b => b.hidden rows ++ b.shown rows) := by
  induction blocks with
  | nil => rfl
  | cons b blocks ih =>
    obtain ⟨hfirst, hrest⟩ := forall_mem_cons.mp hhidd
    have hnone : changedRows (b.hidden rows) = [] := by
      rw [changedRows, filterMap_eq_nil_iff]
      intro row hrow
      cases row with
      | context row => rfl
      | change row => cases hfirst _ hrow
    have hih := ih hrest
    simp only [changedRows] at hih hnone ⊢
    simp [hnone, hih]

lemma rangesExact (hrows : Consecutive side rows) (hcov : Covers rows.length index blocks)
    (hb : b ∈ blocks) : RangesExact rows side b := by
  obtain ⟨hmid, hstop, -⟩ := hcov.bounds hb
  constructor
  · intro gap hgap
    obtain ⟨-, heq⟩ := Option.ite_none_right_eq_some.mp hgap
    cases heq
    have hlines := lines_lineRange (hrows.slice hmid)
    cases side <;> exact hlines
  · exact lines_lineRange (hrows.slice hstop)

end Display

/-- The display is cut into blocks that hide context rows far from every change only. -/
lemma exists_shows (rows : List ConflictDiffRow) (expandedGaps : String → Bool) (context : Nat) :
    ∃ blocks, Shows rows context (collapseConflictDiff rows expandedGaps context) blocks := by
  have hgaps : ∀ start gap, (start, gap) ∈ collectGaps rows (visibleRows rows context) expandedGaps 0 →
      GapAt rows (visibleRows rows context) start gap := fun _ _ => gapAt_of_mem
  obtain ⟨blocks, hcov, hitems, hinv⟩ := emitItems_blocks hgaps (Nat.sub_le rows.length 0) (Nat.zero_le _)
  have hrows : blocks.flatMap (fun b => b.hidden rows ++ b.shown rows) = rows := hcov.flatMap_rows
  have hfar : ∀ b ∈ blocks, ∀ i, b.start ≤ i → i < b.middle → ∀ j row, rows[j]? = some row → isChange row = true →
      i + context < j ∨ j + context < i := by
    intro b hb i hstart hmid j row hrow hchg
    obtain ⟨-, hstop, hlen⟩ := hcov.bounds hb
    have hhidd := hinv b hb i hstart hmid
    rw [Ne, visibleRows_iff] at hhidd
    by_contra hnear
    have hnear : j ≤ i + context ∧ i ≤ j + context := by omega
    exact hhidd ⟨by omega, j, row, hrow, hchg, hnear⟩
  have hcont : ∀ b ∈ blocks, ∀ row ∈ b.hidden rows, isChange row = false := by
    intro b hb row hrow
    obtain ⟨i, hstart, hmid, hat⟩ := exists_of_mem_hidden hrow
    by_contra hchg
    have hself := hfar b hb i hstart hmid i row hat (by simpa using hchg)
    omega
  have hemit : emittedRows (collapseConflictDiff rows expandedGaps context)
      = blocks.flatMap fun b => b.shown rows := by
    rw [collapseConflictDiff, hitems, emittedRows, filterMap_flatMap]
    exact congrArg (blocks.flatMap ·) (funext emittedRows_items)
  refine ⟨blocks, hcov, hrows, hitems, hemit, ?_, fun b _ => length_hidden b, hfar, hcont, ?_⟩
  · rw [collapseConflictDiff, hitems, emittedGaps, filterMap_flatMap, filterMap_eq_flatMap_toList]
    exact congrArg (blocks.flatMap ·) (funext emittedGaps_items)
  · rw [hemit, changedRows_flatMap_shown hcont, hrows]

/-- Collapsing hides no change, and the ranges it shows are the lines of their rows where the rows are numbered line
by line, as those of a conflict are. -/
theorem collapse_hides_no_change (rows : List ConflictDiffRow) (expandedGaps : String → Bool) (context : Nat) :
    (∃ blocks, Shows rows context (collapseConflictDiff rows expandedGaps context) blocks ∧
      ∀ side, Consecutive side rows → ∀ b ∈ blocks, RangesExact rows side b) ∧
    ∀ diff file, rows = buildConflictDiff diff file → ∀ side, Consecutive side rows := by
  obtain ⟨blocks, hshows⟩ := exists_shows rows expandedGaps context
  refine ⟨⟨blocks, hshows, fun side hside b hb => rangesExact hside hshows.covers hb⟩, ?_⟩
  rintro diff file rfl side
  exact consecutive_buildConflictDiff diff file side

end CollapsedDiffs
