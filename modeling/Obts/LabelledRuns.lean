import Mathlib.Data.Option.Basic

/-!
# Runs of labelled steps

A run takes one step for each label and ends where a step is not possible.
-/
namespace LabelledRuns

/-- What every step keeps holds after every run. -/
lemma inv_run {σ ℓ : Type*} {run : σ → List ℓ → Option σ} {step : σ → ℓ → Option σ} {I : σ → Prop}
    {labels : List ℓ} {s s' : σ} (hrun : run s labels = some s') (hnil : ∀ s, run s [] = some s)
    (hcons : ∀ s label labels, run s (label :: labels) = (step s label).bind (run · labels))
    (hstep : ∀ {s s' label}, I s → step s label = some s' → I s') (h : I s) : I s' := by
  induction labels generalizing s with
  | nil => exact Option.some.inj ((hnil s).symm.trans hrun) ▸ h
  | cons label labels ih =>
    obtain ⟨next, hnext, hrest⟩ := Option.bind_eq_some_iff.mp ((hcons s label labels).symm.trans hrun)
    exact ih hrest (hstep h hnext)

end LabelledRuns
