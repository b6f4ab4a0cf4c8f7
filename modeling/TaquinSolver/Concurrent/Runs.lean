import Mathlib.Data.List.Basic

/-! Runs of a machine whose step is a partial function: actions one after the other, as long as each
of them is enabled. -/

namespace Concurrent

variable {σ α : Type} {f : σ → α → Option σ} {s t : σ}

theorem run_cons {a : α} {as : List α} :
    (a :: as).foldlM f s = some t ↔ ∃ m, f s a = some m ∧ as.foldlM f m = some t := by
  rw [List.foldlM_cons, Option.bind_eq_bind, Option.bind_eq_some_iff]

/-- A run whose first step is known. -/
theorem run_of_step {a : α} {m : σ} (h : f s a = some m) (as : List α) :
    (a :: as).foldlM f s = as.foldlM f m := by
  rw [List.foldlM_cons, h]
  rfl

/-- What the steps keep that pass a check holds after a run whose steps all pass it. -/
theorem run_invariant {P : σ → Prop} {C : σ → α → Prop}
    (hStep : ∀ s a t, P s → C s a → f s a = some t → P t) {as : List α}
    (hCheck : ∀ as₁ a as₂ m, as = as₁ ++ a :: as₂ → as₁.foldlM f s = some m → C m a)
    (h : P s) (hRun : as.foldlM f s = some t) : P t := by
  induction as generalizing s with
  | nil =>
    cases hRun
    exact h
  | cons a as ih =>
    obtain ⟨m, hFirst, hRest⟩ := run_cons.1 hRun
    have hChecked := hCheck [] a as s rfl rfl
    refine ih (fun as₁ b as₂ n hEq hPre => ?_) (hStep s a m h hChecked hFirst) hRest
    exact hCheck (a :: as₁) b as₂ n (by rw [hEq, List.cons_append])
      (run_cons.2 ⟨m, hFirst, hPre⟩)

/-- What all the steps keep of certain actions. -/
theorem run_invariant_of_mem {P : σ → Prop} {C : α → Prop}
    (hStep : ∀ s a t, P s → C a → f s a = some t → P t) {as : List α}
    (hCheck : ∀ a ∈ as, C a) (h : P s) (hRun : as.foldlM f s = some t) : P t :=
  run_invariant hStep
    (fun as₁ a as₂ _ hEq _ => hCheck a (by rw [hEq]; simp)) h hRun

end Concurrent
