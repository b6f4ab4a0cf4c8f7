import Mathlib.Data.Set.Insert
import TaquinSolver.Search.Distance

/-! Shortest walks with lazy deletion.  Elements are settled one by one; a queued candidate
`(cost, v, u)` offers `u` as the element before `v`, and stays queued when `v` is settled by another
one.  `Frontier` is what holds between two steps.  A candidate of least cost whose target is not
settled has its target's distance as its cost, whatever else is queued (`Frontier.isDist`), and once
nothing is queued everything reachable is settled (`Frontier.mem_settled`). -/

namespace Search

variable {α : Type}

/-- `u` is before `v` on a shortest walk from `a`. -/
def Precedes (r : α → α → Prop) (a u v : α) : Prop :=
  r u v ∧ ∃ d, IsDist r a u d ∧ IsDist r a v (d + 1)

/-- Candidates come from settled elements, and every step out of the settled elements has one. -/
structure Frontier (r : α → α → Prop) (a : α) (settled : Set α) (queue : Set (ℕ × α × α)) :
    Prop where
  start : a ∈ settled ∨ (0, a, a) ∈ queue
  dist : ∀ u ∈ settled, ∃ d, IsDist r a u d
  candidate : ∀ c v u, (c, v, u) ∈ queue →
    (c = 0 ∧ v = a ∧ u = a) ∨ (u ∈ settled ∧ r u v ∧ ∃ d, IsDist r a u d ∧ c = d + 1)
  step : ∀ u ∈ settled, ∀ v d, r u v → IsDist r a u d → v ∈ settled ∨ (d + 1, v, u) ∈ queue

namespace Frontier

variable {r : α → α → Prop} {a : α} {settled : Set α} {queue queue' : Set (ℕ × α × α)}

theorem init (r : α → α → Prop) (a : α) : Frontier r a ∅ {(0, a, a)} where
  start := .inr rfl
  dist := fun _ hu => hu.elim
  candidate := fun c v u h => by
    left
    simpa using h
  step := fun _ hu => hu.elim

/-- A walk from the start ends at a settled element, or has passed a candidate of no greater
cost. -/
theorem settled_or_candidate (h : Frontier r a settled queue) {k : ℕ} {v : α}
    (hSteps : Steps r k a v) : v ∈ settled ∨ ∃ t ∈ queue, t.1 ≤ k := by
  induction hSteps with
  | refl =>
    rcases h.start with hSettled | hQueued
    · exact .inl hSettled
    · exact .inr ⟨_, hQueued, le_refl 0⟩
  | @tail k a u v hSteps hStep ih =>
    rcases ih h with hu | ⟨t, ht, hle⟩
    · obtain ⟨d, hd⟩ := h.dist u hu
      rcases h.step u hu v d hStep hd with hv | hQueued
      · exact .inl hv
      · exact .inr ⟨_, hQueued, Nat.succ_le_succ (hd.2 hSteps)⟩
    · exact .inr ⟨t, ht, by omega⟩

/-- What is not settled is at least as far as a least candidate costs. -/
theorem cost_le (h : Frontier r a settled queue) {c : ℕ} (hLeast : ∀ t ∈ queue, c ≤ t.1) {w : α}
    (hw : w ∉ settled) {k : ℕ} (hSteps : Steps r k a w) : c ≤ k := by
  rcases h.settled_or_candidate hSteps with hw' | ⟨t, ht, hle⟩
  · exact absurd hw' hw
  · exact (hLeast t ht).trans hle

/-- A least candidate for an element that is not settled costs that element's distance. -/
theorem isDist (h : Frontier r a settled queue) {c : ℕ} {v u : α} (hMem : (c, v, u) ∈ queue)
    (hLeast : ∀ t ∈ queue, c ≤ t.1) (hv : v ∉ settled) : IsDist r a v c := by
  refine ⟨?_, fun k hk => h.cost_le hLeast hv hk⟩
  rcases h.candidate c v u hMem with ⟨rfl, rfl, rfl⟩ | ⟨_, hStep, d, hd, rfl⟩
  · exact .refl _
  · exact .tail hd.1 hStep

/-- The source of such a candidate precedes its target, unless the target is the start. -/
theorem precedes (h : Frontier r a settled queue) {c : ℕ} {v u : α} (hMem : (c, v, u) ∈ queue)
    (hLeast : ∀ t ∈ queue, c ≤ t.1) (hv : v ∉ settled) :
    (v = a ∧ u = a) ∨ (v ≠ a ∧ Precedes r a u v) := by
  have hDist := h.isDist hMem hLeast hv
  rcases h.candidate c v u hMem with ⟨-, rfl, rfl⟩ | ⟨_, hStep, d, hd, rfl⟩
  · exact .inl ⟨rfl, rfl⟩
  · right
    refine ⟨?_, hStep, d, hd, hDist⟩
    rintro rfl
    have := hDist.zero_iff.mpr rfl
    omega

/-- A candidate for a settled element can be dropped. -/
theorem drop (h : Frontier r a settled queue) {t : ℕ × α × α} (ht : t.2.1 ∈ settled)
    (hSub : queue' ⊆ queue) (hSup : queue ⊆ insert t queue') : Frontier r a settled queue' where
  start := by
    rcases h.start with hSettled | hQueued
    · exact .inl hSettled
    · rcases hSup hQueued with rfl | hQueued
      · exact .inl ht
      · exact .inr hQueued
  dist := h.dist
  candidate := fun c v u hMem => h.candidate c v u (hSub hMem)
  step := fun u hu v d hStep hd => by
    rcases h.step u hu v d hStep hd with hv | hQueued
    · exact .inl hv
    · rcases hSup hQueued with rfl | hQueued
      · exact .inl ht
      · exact .inr hQueued

/-- The target of a least candidate is settled, and its successors become candidates. -/
theorem settle (h : Frontier r a settled queue) {c : ℕ} {v u : α} (hMem : (c, v, u) ∈ queue)
    (hLeast : ∀ t ∈ queue, c ≤ t.1) (hv : v ∉ settled)
    (hQueue : ∀ t ∈ queue', t ∈ queue ∨ ∃ w, r v w ∧ t = (c + 1, w, v))
    (hOld : queue ⊆ insert (c, v, u) queue') (hNew : ∀ w, r v w → (c + 1, w, v) ∈ queue') :
    Frontier r a (insert v settled) queue' := by
  have hDist := h.isDist hMem hLeast hv
  constructor
  case start =>
    rcases h.start with hSettled | hQueued
    · exact .inl (.inr hSettled)
    · rcases hOld hQueued with heq | hQueued
      · cases heq
        exact .inl (.inl rfl)
      · exact .inr hQueued
  case dist =>
    rintro w (rfl | hw)
    · exact ⟨c, hDist⟩
    · exact h.dist w hw
  case candidate =>
    intro c' v' u' hMem'
    rcases hQueue _ hMem' with hMem' | ⟨w, hStep, heq⟩
    · rcases h.candidate c' v' u' hMem' with hStart | ⟨hu', hRest⟩
      · exact .inl hStart
      · exact .inr ⟨.inr hu', hRest⟩
    · cases heq
      exact .inr ⟨.inl rfl, hStep, c, hDist, rfl⟩
  case step =>
    rintro w (rfl | hw) x d hStep hd
    · rw [hd.unique hDist]
      exact .inr (hNew x hStep)
    · rcases h.step w hw x d hStep hd with hx | hQueued
      · exact .inl (.inr hx)
      · rcases hOld hQueued with heq | hQueued
        · cases heq
          exact .inl (.inl rfl)
        · exact .inr hQueued

/-- When no candidate is left, everything reachable is settled. -/
theorem mem_settled (h : Frontier r a settled ∅) {k : ℕ} {v : α} (hSteps : Steps r k a v) :
    v ∈ settled := by
  rcases h.settled_or_candidate hSteps with hv | ⟨t, ht, -⟩
  · exact hv
  · exact ht.elim

end Frontier

end Search
