import TaquinSolver.Java.Runtime

/-! `while` loops whose body may throw.  A loop runs on an allotment of iterations, its fuel, and
fails with `outOfFuel` when the allotment is used up while the condition still holds.  `Iterates`
counts the iterations that a loop makes, so that a bound on the count shows that the fuel is
enough (`Iterates.whileLoop_eq`). -/

namespace Java

variable {σ : Type}

/-- `while (cond) body`, for at most the given number of iterations. -/
def whileLoop (cond : σ → Bool) (body : σ → Result σ) : ℕ → σ → Result σ
  | 0, s => if cond s then .error .outOfFuel else .ok s
  | fuel + 1, s => if cond s then body s >>= whileLoop cond body fuel else .ok s

/-- The loop reaches `t` from `s` by exactly `k` iterations, none of which throws. -/
inductive Iterates (cond : σ → Bool) (body : σ → Result σ) : ℕ → σ → σ → Prop
  | refl (s : σ) : Iterates cond body 0 s s
  | step {k : ℕ} {s s' t : σ} : cond s = true → body s = .ok s' → Iterates cond body k s' t →
      Iterates cond body (k + 1) s t

variable {cond : σ → Bool} {body : σ → Result σ}

/-- A loop that stops within its fuel returns the state at which it stops. -/
theorem Iterates.whileLoop_eq {k : ℕ} {s t : σ} (h : Iterates cond body k s t)
    (hStop : cond t = false) {fuel : ℕ} (hFuel : k ≤ fuel) :
    whileLoop cond body fuel s = .ok t := by
  induction h generalizing fuel with
  | refl s => cases fuel <;> simp [whileLoop, hStop]
  | step hCond hBody _ ih =>
    obtain ⟨fuel, rfl⟩ : ∃ f, fuel = f + 1 := ⟨fuel - 1, by omega⟩
    simp only [whileLoop, hCond, if_true, hBody, Result.ok_bind]
    exact ih hStop (by omega)

theorem Iterates.trans {j k : ℕ} {s t u : σ} (h : Iterates cond body j s t)
    (h' : Iterates cond body k t u) : Iterates cond body (j + k) s u := by
  induction h with
  | refl s => simpa using h'
  | step hCond hBody _ ih =>
    rw [Nat.succ_add]
    exact .step hCond hBody (ih h')

/-- The first iterations of a loop are the same however long it runs. -/
theorem Iterates.rest {i j : ℕ} {s t u : σ} (h : Iterates cond body j s t)
    (h' : Iterates cond body (j + i) s u) : Iterates cond body i t u := by
  induction h with
  | refl s => simpa using h'
  | step hCond hBody _ ih =>
    rw [Nat.succ_add] at h'
    obtain _ | ⟨-, hBody', hRest⟩ := h'
    rw [hBody] at hBody'
    cases hBody'
    exact ih hRest

/-- What every iteration keeps holds wherever the loop gets. -/
theorem Iterates.invariant {P : σ → Prop}
    (hStep : ∀ s s', P s → cond s = true → body s = .ok s' → P s') {k : ℕ} {s t : σ}
    (h : Iterates cond body k s t) (hs : P s) : P t := by
  induction h with
  | refl s => exact hs
  | step hCond hBody _ ih => exact ih (hStep _ _ hs hCond hBody)

/-- What holds after some iterations and did not before became true in one of them. -/
theorem Iterates.exists_change {Q : σ → Prop} {k : ℕ} {s t : σ} (h : Iterates cond body k s t)
    (hs : ¬Q s) (ht : Q t) : ∃ j u u', Iterates cond body j s u ∧ cond u = true ∧
      body u = .ok u' ∧ ¬Q u ∧ Q u' := by
  induction h with
  | refl s => exact absurd ht hs
  | @step k s s' t hCond hBody _ ih =>
    by_cases hs' : Q s'
    · exact ⟨0, s, s', .refl s, hCond, hBody, hs, hs'⟩
    · obtain ⟨j, u, u', hIter, hChange⟩ := ih hs' ht
      exact ⟨j + 1, u, u', .step hCond hBody hIter, hChange⟩

/-- What every iteration keeps holds of the state that a loop returns. -/
theorem whileLoop_invariant {P : σ → Prop} (hStep : ∀ s s', P s → body s = .ok s' → P s')
    {fuel : ℕ} {s t : σ} (hs : P s) (h : whileLoop cond body fuel s = .ok t) : P t := by
  induction fuel generalizing s with
  | zero =>
    rw [whileLoop] at h
    split at h
    · cases h
    · cases h
      exact hs
  | succ fuel ih =>
    rw [whileLoop] at h
    split at h
    · obtain ⟨s', hBody, hRest⟩ := Result.bind_eq_ok.mp h
      exact ih (hStep s s' hs hBody) hRest
    · cases h
      exact hs

/-- What every round keeps holds after a loop over a list. -/
theorem foldlM_invariant {α : Type} {f : σ → α → Result σ} {P : σ → Prop}
    (hStep : ∀ s a s', P s → f s a = .ok s' → P s') {l : List α} {s t : σ} (hs : P s)
    (h : l.foldlM f s = .ok t) : P t := by
  induction l generalizing s with
  | nil =>
    cases h
    exact hs
  | cons a l ih =>
    rw [List.foldlM_cons] at h
    obtain ⟨s', hRound, hRest⟩ := Result.bind_eq_ok.mp h
    exact ih (hStep s a s' hs hRound) hRest

/-- A loop whose condition holds in every state that it reaches uses up any allotment. -/
theorem whileLoop_endless {P : σ → Prop}
    (hStep : ∀ s, P s → cond s = true ∧ ∃ s', body s = .ok s' ∧ P s') {s : σ} (hs : P s)
    (fuel : ℕ) : whileLoop cond body fuel s = .error .outOfFuel := by
  induction fuel generalizing s with
  | zero => simp [whileLoop, (hStep s hs).1]
  | succ fuel ih =>
    obtain ⟨hCond, s', hBody, hs'⟩ := hStep s hs
    rw [whileLoop, if_pos hCond, hBody, Result.ok_bind]
    exact ih hs'

/-- A measure that drops by one in each iteration counts the iterations. -/
theorem Iterates.measure_add {P : σ → Prop} (measure : σ → ℕ)
    (hStep : ∀ s s', P s → cond s = true → body s = .ok s' → P s' ∧ measure s' + 1 = measure s)
    {k : ℕ} {s t : σ} (h : Iterates cond body k s t) (hs : P s) : measure t + k = measure s := by
  induction h with
  | refl s => rfl
  | step hCond hBody _ ih =>
    obtain ⟨hs', hOne⟩ := hStep _ _ hs hCond hBody
    have := ih hs'
    omega

/-- Total correctness: when every iteration from a state that meets the invariant `P` returns, keeps
`P` and lowers `measure`, the loop stops in a state that meets `P`, within `measure` iterations. -/
theorem exists_iterates {P : σ → Prop} (measure : σ → ℕ)
    (hStep : ∀ s, P s → cond s = true → ∃ s', body s = .ok s' ∧ P s' ∧ measure s' < measure s)
    {s : σ} (hs : P s) :
    ∃ k ≤ measure s, ∃ t, Iterates cond body k s t ∧ P t ∧ cond t = false := by
  induction hm : measure s using Nat.strong_induction_on generalizing s with
  | _ m ih =>
    cases hc : cond s with
    | false => exact ⟨0, Nat.zero_le _, s, .refl s, hs, hc⟩
    | true =>
      obtain ⟨s', hBody, hs', hlt⟩ := hStep s hs hc
      obtain ⟨k, hk, t, hIter, ht⟩ := ih _ (hm ▸ hlt) hs' rfl
      exact ⟨k + 1, by omega, t, .step hc hBody hIter, ht⟩

/-- The body, a given number of times. -/
def repeatBody (body : σ → Result σ) : ℕ → σ → Result σ
  | 0, s => .ok s
  | k + 1, s => body s >>= repeatBody body k

/-- Where the body succeeds only while the condition holds, running it is iterating the loop. -/
theorem iterates_of_repeatBody (hCond : ∀ s s', body s = .ok s' → cond s = true) {k : ℕ} {s t : σ}
    (h : repeatBody body k s = .ok t) : Iterates cond body k s t := by
  induction k generalizing s with
  | zero =>
    cases h
    exact .refl _
  | succ k ih =>
    obtain ⟨s', hBody, hRest⟩ := Result.bind_eq_ok.mp h
    exact .step (hCond s s' hBody) hBody (ih hRest)

end Java
