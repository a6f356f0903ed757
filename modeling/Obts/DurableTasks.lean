/-!
# Tasks with durable writes

A task works on a durable state by atomic writes and may be cut off after any of them. It is
modelled by the states that its writes leave behind, in order, and by how it ends when it is
not cut off. `Runs` says that every write leaves a good state and that the task ends well.
-/
namespace DurableTasks

universe u

/-- A task on a durable state `σ` that throws an `ε` or returns an `α`. -/
def Task (σ ε α : Type u) : Type u := σ → List σ × Except ε (α × σ)

namespace Task

variable {σ ε α β : Type u}

instance : Monad (Task σ ε) where
  pure a := fun s => ([], .ok (a, s))
  bind t f := fun s =>
    match t s with
    | (writes, .error e) => (writes, .error e)
    | (writes, .ok (a, s')) => (writes ++ (f a s').1, (f a s').2)

/-- The durable state, as the task's process sees it. -/
def read : Task σ ε σ := fun s => ([], .ok (s, s))

/-- One atomic write. -/
def write (f : σ → σ) : Task σ ε PUnit := fun s => ([f s], .ok (⟨⟩, f s))

def ofExcept (x : Except ε α) : Task σ ε α := fun s => ([], x.map fun a => (a, s))

/-- Throws unless the condition holds. -/
def check (c : Prop) [Decidable c] (e : ε) : Task σ ε PUnit :=
  if c then pure ⟨⟩ else ofExcept (.error e)

variable (t : Task σ ε α)

/-- The state that a task leaves behind when it is cut off after `k` writes. -/
def cutOff (s : σ) (k : Nat) : σ := ((t s).1.take k).getLast?.getD s

/-- The state at the end of a task, whether it returned or threw. -/
def final (s : σ) : σ := (t s).1.getLast?.getD s

/-- From `s`, every write of the task leaves a state in `C`, and it returns with `Q`. -/
def Runs (s : σ) (C : σ → Prop) (Q : α → σ → Prop) : Prop :=
  (∀ w ∈ (t s).1, C w) ∧ ∃ a s', (t s).2 = .ok (a, s') ∧ t.final s = s' ∧ Q a s'

variable {t : Task σ ε α} {s : σ} {C : σ → Prop} {Q Q' : α → σ → Prop}

theorem Runs.mono (h : t.Runs s C Q) (hQ : ∀ a s', Q a s' → Q' a s') : t.Runs s C Q' := by
  obtain ⟨hwrs, a, s', hres, hfinal, ha⟩ := h
  exact ⟨hwrs, a, s', hres, hfinal, hQ a s' ha⟩

/-- Wherever the task is cut off, the state is in `C`. -/
theorem Runs.cutOff (h : t.Runs s C Q) (hs : C s) (k : Nat) : C (t.cutOff s k) := by
  rw [Task.cutOff]
  cases hlast : ((t s).1.take k).getLast? with
  | none => exact hs
  | some w => exact h.1 w (List.mem_of_mem_take (List.mem_of_getLast? hlast))

theorem runs_pure {a : α} (h : Q a s) : (pure a : Task σ ε α).Runs s C Q :=
  ⟨by simp [pure], a, s, rfl, rfl, h⟩

theorem runs_read {Q : σ → σ → Prop} (h : Q s s) : (read : Task σ ε σ).Runs s C Q :=
  ⟨by simp [read], s, s, rfl, rfl, h⟩

theorem runs_write {f : σ → σ} {Q : PUnit → σ → Prop} (hC : C (f s)) (h : Q ⟨⟩ (f s)) :
    (write f : Task σ ε PUnit).Runs s C Q :=
  ⟨by simp [write, hC], ⟨⟩, f s, rfl, rfl, h⟩

theorem runs_ofExcept {x : Except ε α} {a : α} (hx : x = .ok a) (h : Q a s) :
    (ofExcept x : Task σ ε α).Runs s C Q := by
  subst hx
  exact ⟨by simp [ofExcept], a, s, rfl, rfl, h⟩

theorem runs_check {c : Prop} [Decidable c] {e : ε} {Q : PUnit → σ → Prop} (hc : c) (h : Q ⟨⟩ s) :
    (check c e : Task σ ε PUnit).Runs s C Q := by
  rw [check, if_pos hc]
  exact runs_pure h

theorem runs_bind {f : α → Task σ ε β} {Q : β → σ → Prop}
    (h : t.Runs s C fun a s' => (f a).Runs s' C Q) : (t >>= f).Runs s C Q := by
  obtain ⟨hwrs, a, s', hres, hfinal, hnext, b, s'', hres', hfinal', hQ⟩ := h
  have hbind : (t >>= f) s = ((t s).1 ++ (f a s').1, (f a s').2) := by
    have hpair : t s = ((t s).1, .ok (a, s')) := Prod.ext rfl hres
    simp only [bind]
    rw [hpair]
  refine ⟨?_, b, s'', ?_, ?_, hQ⟩
  · intro w hw
    rw [hbind] at hw
    exact (List.mem_append.mp hw).elim (hwrs w) (hnext w)
  · rw [hbind, hres']
  · rw [final, hbind, List.getLast?_append]
    rw [final] at hfinal hfinal'
    cases hlast : (f a s').1.getLast? with
    | none =>
      rw [hlast, Option.getD_none] at hfinal'
      simpa [← hfinal'] using hfinal
    | some w =>
      rw [hlast] at hfinal'
      simpa using hfinal'

/-- A loop keeps an invariant that says what is left to do. -/
theorem runs_foldlM {f : β → α → Task σ ε β} {l : List α} {b : β} (I : List α → β → σ → Prop)
    (h : I l b s) (hstep : ∀ a rest b s, I (a :: rest) b s → (f b a).Runs s C fun b' s' => I rest b' s') :
    (l.foldlM f b).Runs s C fun b' s' => I [] b' s' := by
  induction l generalizing b s with
  | nil => exact runs_pure h
  | cons a rest ih =>
    refine runs_bind ((hstep a rest b s h).mono ?_)
    intro b' s' h'
    exact ih h'

end Task

end DurableTasks
