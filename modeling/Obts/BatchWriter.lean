import Mathlib.Logic.Basic
import Obts.InsertionOrder

/-!
# Writing in batches

A writer runs statements in transactions of bounded size, one after the other. A statement too large for a
batch has its own transaction. Whatever a transaction has committed stays when the writer stops.
-/
namespace BatchWriter

open List

variable {σ κ : Type*}

structure Limits where
  (batchRows batchBytes : Nat)

/-- What is committed, all that this writer committed on the way, and what the open transaction sees. -/
structure Writer (σ : Type*) where
  committed : σ
  commits : List σ := []
  tx : Option σ := none
  rows : Nat := 0
  bytes : Nat := 0

/-- A statement changes the state and tells how many rows it changed, or fails. -/
abbrev Change (σ : Type*) := σ → Option (σ × Nat)

namespace Writer

variable (w : Writer σ)

/-- What the next statement sees. -/
def view : σ := w.tx.getD w.committed

def flush : Writer σ :=
  match w.tx with
  | some state => { committed := state, commits := w.commits ++ [state] }
  | none => { w with rows := 0, bytes := 0 }

/-- The open transaction is rolled back. -/
def abort : Writer σ := { w with tx := none }

def singleton (change : Change σ) (w : Writer σ) : Except (Writer σ) (Writer σ × Nat) :=
  match change w.committed with
  | none => .error w
  | some (state, affected) =>
    .ok ({ w with committed := state, commits := w.commits ++ [state] }, affected)

def append (change : Change σ) (size : Nat) (w : Writer σ) : Except (Writer σ) (Writer σ × Nat) :=
  match change w.view with
  | none => .error w.abort
  | some (state, affected) =>
    .ok ({ w with tx := some state, rows := w.rows + 1, bytes := w.bytes + size }, affected)

variable (limits : Limits) (change : Change σ)

def row (size : Nat) (w : Writer σ) : Except (Writer σ) (Writer σ × Nat) :=
  if size > limits.batchBytes then w.flush.singleton change
  else if w.rows = limits.batchRows ∨ w.bytes + size > limits.batchBytes then w.flush.append change size
  else w.append change size

/-- A row whose count does not matter. -/
def exec (size : Nat) (w : Writer σ) : Except (Writer σ) (Writer σ) :=
  (w.row limits change size).map Prod.fst

/-- Rows one after the other. -/
def execEach {ι : Type*} (limits : Limits) (run : ι → Change σ) (size : ι → Nat) :
    List ι → Writer σ → Except (Writer σ) (Writer σ)
  | [], w => .ok w
  | item :: items, w =>
    (w.exec limits (run item) (size item)).bind (execEach limits run size items)

/-- The keys after a key are read in pages of what is committed, and each has its row; `fuel` bounds the
pages. -/
def sweep {κ : Type*} (limits : Limits) (select : σ → κ → List κ) (run : κ → Change σ) (size : κ → Nat) :
    Nat → κ → Writer σ → Except (Writer σ) (Writer σ)
  | 0, _, w => .ok w
  | fuel + 1, after, w =>
    match (select w.committed after).getLast? with
    | none => .ok w
    | some last =>
      (w.execEach limits run size (select w.committed after)).bind fun w =>
        sweep limits select run size fuel last w.flush

/-- A last row, in a batch of its own, that must change one row of the state. -/
def commitOne (size : Nat) (w : Writer σ) : Except (Writer σ) (Writer σ) :=
  (w.flush.row limits change size).bind fun (w, affected) =>
    if affected ≠ 1 then .error w.abort else .ok w.flush

variable {J B C : σ → Prop} {limits : Limits} {change : Change σ} {size fuel : Nat} {w : Writer σ}
variable {result : Except (Writer σ) (Writer σ)} {next : Writer σ → Except (Writer σ) (Writer σ)}
  {sizes : κ → Nat} {after : κ}

/-- All that is or will be committed is safe. -/
structure Safe (J : σ → Prop) (w : Writer σ) : Prop where
  commits : ∀ state ∈ w.commits, J state
  tx : ∀ state, w.tx = some state → J state

/-- The writer stays safe, and unless it fails, what it sees afterwards has a property. -/
def Yields (J B : σ → Prop) : Except (Writer σ) (Writer σ) → Prop
  | .ok w => Safe J w ∧ B w.view
  | .error w => ∀ state ∈ w.commits, J state

@[simp] lemma view_flush : w.flush.view = w.view := by
  rw [flush, view, view]
  split
  · rename_i state htx
    rw [htx]
    rfl
  · rename_i htx
    rw [htx]

@[simp] lemma tx_flush : w.flush.tx = none := by
  rw [flush]
  split
  · rfl
  · rename_i htx
    exact htx

lemma committed_flush : w.flush.committed = w.view := by
  rw [← view_flush, view, tx_flush, Option.getD_none]

lemma Safe.flush (h : Safe J w) : Safe J w.flush := by
  refine ⟨?_, fun state hstate => by rw [tx_flush] at hstate; cases hstate⟩
  rw [Writer.flush]
  split
  · rename_i state htx
    exact InsertionOrder.forall_mem_concat.mpr ⟨h.commits, h.tx state htx⟩
  · exact h.commits

lemma Safe.singleton (h : Safe J w) (htx : w.tx = none)
    (hchg : ∀ state affected, change w.view = some (state, affected) → J state ∧ B state) :
    Yields J B ((w.singleton change).map Prod.fst) := by
  have hview : w.view = w.committed := by rw [view, htx, Option.getD_none]
  rw [Writer.singleton, ← hview]
  split
  · exact h.commits
  rename_i state affected hstate
  obtain ⟨hJ, hB⟩ := hchg state affected hstate
  refine ⟨⟨fun other hother => ?_, fun other hother => h.tx other hother⟩, ?_⟩
  · rcases mem_append.mp hother with hmem | hmem
    · exact h.commits other hmem
    · rw [mem_singleton.mp hmem]
      exact hJ
  · rw [htx]
    exact hB

lemma Safe.append (h : Safe J w)
    (hchg : ∀ state affected, change w.view = some (state, affected) → J state ∧ B state) :
    Yields J B ((w.append change size).map Prod.fst) := by
  rw [Writer.append]
  split
  · exact h.commits
  rename_i state affected hstate
  obtain ⟨hJ, hB⟩ := hchg state affected hstate
  refine ⟨⟨h.commits, fun other hother => ?_⟩, hB⟩
  cases hother
  exact hJ

/-- A statement is run on what the writer sees. -/
lemma yields_exec (h : Safe J w)
    (hchg : ∀ state affected, change w.view = some (state, affected) → J state ∧ B state) :
    Yields J B (w.exec limits change size) := by
  rw [exec, row]
  split
  · exact h.flush.singleton tx_flush (by rwa [view_flush])
  split
  · exact h.flush.append (by rwa [view_flush])
  · exact h.append hchg

lemma Yields.bind (h : Yields J B result)
    (hnext : ∀ w, Safe J w → B w.view → Yields J C (next w)) : Yields J C (result.bind next) := by
  cases result with
  | error w => exact h
  | ok w => exact hnext w h.1 h.2

lemma Yields.mono (h : Yields J B result) (himp : ∀ state, B state → C state) : Yields J C result := by
  cases result with
  | error w => exact h
  | ok w => exact ⟨h.1, himp _ h.2⟩

section Lists
variable {ι : Type*} {run : ι → Change σ} {sizes : ι → Nat} {items : List ι}

/-- The rule for a list: a property of the items that are done, kept by each further item. -/
lemma yields_execEach {P : List ι → σ → Prop} (done : List ι) (h : Safe J w)
    (hP : P done w.view) (hitem : ∀ done item state after affected, item ∈ items → P done state →
      run item state = some (after, affected) → J after ∧ P (done ++ [item]) after) :
    Yields J (P (done ++ items)) (w.execEach limits run sizes items) := by
  induction items generalizing w done with
  | nil =>
    rw [append_nil]
    exact ⟨h, hP⟩
  | cons item items ih =>
    have hfirst : Yields J (P (done ++ [item])) (w.exec limits (run item) (sizes item)) :=
      yields_exec h fun state affected hstate => hitem done item _ _ _ mem_cons_self hP hstate
    refine hfirst.bind fun w' hsafe hdone => ?_
    have hrest := ih (done ++ [item]) hsafe hdone fun done item state after affected hmem =>
      hitem done item state after affected (mem_cons_of_mem _ hmem)
    rwa [append_assoc, singleton_append] at hrest

/-- A property that every row keeps. -/
lemma yields_execEach_of_kept (h : Safe J w) (hB : B w.view)
    (hitem : ∀ item ∈ items, ∀ state after affected, B state → run item state = some (after, affected) →
      J after ∧ B after) : Yields J B (w.execEach limits run sizes items) :=
  yields_execEach (P := fun _ => B) [] h hB fun _ item state after affected hmem hstate hrun =>
    hitem item hmem state after affected hstate hrun

end Lists

/-- A property that the rows of selected keys keep. -/
lemma yields_sweep {select : σ → κ → List κ} {run : κ → Change σ} (h : Safe J w) (htx : w.tx = none) (hB : B w.view)
    (hkey : ∀ start after, B start → ∀ key ∈ select start after, ∀ state next affected, B state →
      run key state = some (next, affected) → J next ∧ B next) :
    Yields J B (w.sweep limits select run sizes fuel after) := by
  induction fuel generalizing w after with
  | zero => exact ⟨h, hB⟩
  | succ fuel ih =>
    rw [sweep]
    split
    · exact ⟨h, hB⟩
    have hcmt : B w.committed := by
      rw [view, htx, Option.getD_none] at hB
      exact hB
    refine (yields_execEach_of_kept h hB fun key hmem => hkey _ after hcmt key hmem).bind ?_
    intro w' hsafe hview
    exact ih hsafe.flush tx_flush (by rw [view_flush]; exact hview)

/-- With more pages allowed than there can be, it does not matter how many. -/
lemma sweep_succ {select : σ → κ → List κ} {run : κ → Change σ} (left : σ → κ → Nat) (htx : w.tx = none)
    (hsel : ∀ state after last, (select state after).getLast? = some last → left state last < left state after)
    (hrun : ∀ key state next affected, run key state = some (next, affected) →
      ∀ after, left next after ≤ left state after) (hfuel : left w.committed after < fuel) :
    w.sweep limits select run sizes (fuel + 1) after = w.sweep limits select run sizes fuel after := by
  induction fuel generalizing w after with
  | zero => omega
  | succ fuel ih =>
    rw [sweep, sweep]
    cases hlast : (select w.committed after).getLast? with
    | none => rfl
    | some last =>
      have hpage : Yields (fun _ => True) (fun state => ∀ key, left state key ≤ left w.committed key)
          (w.execEach limits run sizes (select w.committed after)) := by
        refine yields_execEach_of_kept ⟨fun _ _ => trivial, fun _ _ => trivial⟩ ?_ ?_
        · rw [view, htx, Option.getD_none]
          exact fun key => Nat.le_refl _
        · intro item _ state next affected hstate hnext
          exact ⟨trivial, fun key => Nat.le_trans (hrun item state next affected hnext key) (hstate key)⟩
      cases hres : w.execEach limits run sizes (select w.committed after) with
      | error _ => rfl
      | ok w' =>
        rw [hres] at hpage
        refine ih tx_flush ?_
        rw [committed_flush]
        have hpast := hsel w.committed after last hlast
        have hless := hpage.2 last
        omega

/-- All that is committed is safe but the end, if it is reached. -/
def Ends (J B : σ → Prop) : Except (Writer σ) (Writer σ) → Prop
  | .ok w => (∀ state ∈ w.commits.dropLast, J state) ∧ B w.committed
  | .error w => ∀ state ∈ w.commits, J state

lemma Yields.ends (h : Yields J B result)
    (hnext : ∀ w, Safe J w → B w.view → Ends J C (next w)) : Ends J C (result.bind next) := by
  cases result with
  | error w => exact h
  | ok w => exact hnext w h.1 h.2

lemma Ends.mono {J' C : σ → Prop} (h : Ends J B result) (hJ : ∀ state, J state → J' state)
    (hB : ∀ state, B state → C state) : Ends J' C result := by
  cases result with
  | error w => exact fun state hstate => hJ state (h state hstate)
  | ok w => exact ⟨fun state hstate => hJ state (h.1 state hstate), hB _ h.2⟩

/-- Where the last row is not the one that was to change, it must be safe too. -/
lemma Safe.commitOne (h : Safe J w) (hchg : ∀ state affected, change w.view = some (state, affected) →
      if affected = 1 then B state else J state) : Ends J B (w.commitOne limits change size) := by
  have hview : w.flush.view = w.view := view_flush
  have hcmt : w.flush.committed = w.view := committed_flush
  have hflush := h.flush
  have htx : w.flush.tx = none := tx_flush
  rw [Writer.commitOne]
  generalize w.flush = v at hview hcmt hflush htx
  have hvfl : v.flush.commits = v.commits := by rw [Writer.flush, htx]
  have happ : ∀ u : Writer σ, u.view = w.view → u.commits = v.commits →
      Ends J B ((u.append change size).bind fun (w, affected) =>
        if affected ≠ 1 then .error w.abort else .ok w.flush) := by
    intro u hu hcomm
    rw [Writer.append, hu]
    cases hrun : change w.view with
    | none =>
      change ∀ state ∈ u.commits, J state
      rw [hcomm]
      exact hflush.commits
    | some made =>
      have hmade := hchg made.1 made.2 hrun
      by_cases hone : made.2 = 1
      · rw [if_pos hone] at hmade
        simp only [Except.bind, hone, ne_eq, not_true_eq_false, if_false]
        refine ⟨?_, hmade⟩
        simp only [Writer.flush, dropLast_concat, hcomm]
        exact hflush.commits
      · simp only [Except.bind, ne_eq, hone, not_false_eq_true, if_true]
        exact hcomm ▸ hflush.commits
  rw [row]
  split
  · rw [Writer.singleton, committed_flush, hview]
    cases hrun : change w.view with
    | none =>
      change ∀ state ∈ v.flush.commits, J state
      rw [hvfl]
      exact hflush.commits
    | some made =>
      have hmade := hchg made.1 made.2 hrun
      by_cases hone : made.2 = 1
      · rw [if_pos hone] at hmade
        simp only [Except.bind, hone, ne_eq, not_true_eq_false, if_false]
        refine ⟨?_, ?_⟩
        · simp only [Writer.flush, htx, dropLast_concat]
          exact hflush.commits
        · simp only [Writer.flush, htx]
          exact hmade
      · rw [if_neg hone] at hmade
        simp only [Except.bind, ne_eq, hone, not_false_eq_true, if_true]
        refine InsertionOrder.forall_mem_concat.mpr ⟨fun state hmem => hflush.commits state (hvfl ▸ hmem), ?_⟩
        exact hmade
  split
  · exact happ v.flush (view_flush.trans hview) hvfl
  · exact happ v hview rfl

end Writer

end BatchWriter
