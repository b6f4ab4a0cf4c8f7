import Mathlib.Data.Fintype.Card
import Mathlib.Data.List.Range
import Mathlib.Data.Nat.Find
import TaquinSolver.Search.Distance

/-! Breadth-first numbering of the elements that `next` reaches from a start.  Elements are numbered
in the order of their discovery, and each keeps the number of the element that discovered it, its
parent.  `Explored` is what holds after the elements below `head` have been expanded.  From it
follow, with no mention of the order of work: the level of an element, counted along its parents, is
its distance from the start (`Complete.isDist`), levels do not decrease with the number
(`Explored.level_mono`), and a parent is the least number that has the element as a successor. -/

namespace Search.Bfs

variable {α : Type}

/-- The elements in the order of their numbers, and the parent of each number. -/
structure Discovery (α : Type) where
  seen : List α
  parents : List ℕ

/-- Only `a` is numbered, as its own parent. -/
def Discovery.start (a : α) : Discovery α := ⟨[a], [0]⟩

/-- The numbering after element `h` has looked at its successor `b`. -/
def Discovery.visit [DecidableEq α] (h : ℕ) (s : Discovery α) (b : α) : Discovery α :=
  if b ∈ s.seen then s else ⟨s.seen ++ [b], s.parents ++ [h]⟩

/-- The numbering after element `h` has looked at all its successors. -/
def Discovery.expand [DecidableEq α] (next : α → List α) (h : ℕ) (s : Discovery α) :
    Discovery α :=
  match s.seen[h]? with
  | some a => (next a).foldl (Discovery.visit h) s
  | none => s

/-- The numbering after the first `k` elements have been expanded. -/
def numbering [DecidableEq α] (next : α → List α) (a : α) : ℕ → Discovery α
  | 0 => .start a
  | k + 1 => (numbering next a k).expand next k

/-- The elements below `head` have been expanded, and every parent is below `bound`. -/
structure Explored (next : α → List α) (a : α) (head bound : ℕ) (s : Discovery α) : Prop where
  seen_zero : s.seen[0]? = some a
  parent_zero : s.parents[0]? = some 0
  length : s.parents.length = s.seen.length
  nodup : s.seen.Nodup
  closed : ∀ k < head, ∀ x, s.seen[k]? = some x → ∀ y ∈ next x, y ∈ s.seen
  parent_lt : ∀ v p : ℕ, 0 < v → s.parents[v]? = some p → p < v ∧ p < bound
  parent_next : ∀ (v p : ℕ) (y : α), 0 < v → s.parents[v]? = some p → s.seen[v]? = some y →
    ∃ x, s.seen[p]? = some x ∧ y ∈ next x
  parent_least : ∀ (v p u : ℕ) (x y : α), 0 < v → s.parents[v]? = some p →
    s.seen[v]? = some y → s.seen[u]? = some x → y ∈ next x → p ≤ u
  parent_mono : ∀ v w p q : ℕ, v ≤ w → s.parents[v]? = some p → s.parents[w]? = some q → p ≤ q

/-- Every numbered element has been expanded. -/
def Complete (next : α → List α) (a : α) (s : Discovery α) : Prop :=
  Explored next a s.seen.length s.seen.length s

/-! ### Expanding an element -/

section Expand

variable {next : α → List α} {a : α} {head bound : ℕ} {s : Discovery α}

theorem explored_start (next : α → List α) (a : α) : Explored next a 0 0 (.start a) where
  seen_zero := rfl
  parent_zero := rfl
  length := rfl
  nodup := List.nodup_singleton a
  closed := fun k hk => absurd hk (Nat.not_lt_zero k)
  parent_lt := fun v p hv h => by
    have := (List.getElem?_eq_some_iff.mp h).1
    simp [Discovery.start] at this
    omega
  parent_next := fun v p y hv h => by
    have := (List.getElem?_eq_some_iff.mp h).1
    simp [Discovery.start] at this
    omega
  parent_least := fun v p u x y hv h => by
    have := (List.getElem?_eq_some_iff.mp h).1
    simp [Discovery.start] at this
    omega
  parent_mono := fun v w p q hvw hv hw => by
    have h1 := (List.getElem?_eq_some_iff.mp hv).1
    have h2 := (List.getElem?_eq_some_iff.mp hw).1
    simp only [Discovery.start, List.length_singleton] at h1 h2
    obtain rfl : v = 0 := by omega
    obtain rfl : w = 0 := by omega
    rw [hv] at hw
    simp only [Option.some.injEq] at hw
    omega

theorem Explored.mono_bound (h : Explored next a head bound s) {bound' : ℕ}
    (hb : bound ≤ bound') : Explored next a head bound' s :=
  { h with parent_lt := fun v p hv hp => by have := h.parent_lt v p hv hp; omega }

/-- The last entry of an extended list, or an entry of the list before. -/
theorem getElem?_concat {β : Type} {l : List β} {b c : β} {v : ℕ}
    (h : (l ++ [b])[v]? = some c) : l[v]? = some c ∨ (v = l.length ∧ c = b) := by
  rcases Nat.lt_trichotomy v l.length with hv | hv | hv
  · rw [List.getElem?_append_left hv] at h
    exact .inl h
  · subst hv
    right
    simpa using h.symm
  · rw [List.getElem?_append_right (by omega)] at h
    have := (List.getElem?_eq_some_iff.mp h).1
    simp at this
    omega

theorem getElem?_of_isPrefix {β : Type} {l l' : List β} (h : l <+: l') {k : ℕ} {b : β}
    (hk : l[k]? = some b) : l'[k]? = some b := by
  have hlt := (List.getElem?_eq_some_iff.mp hk).1
  rw [← hk, List.prefix_iff_getElem?.mp h k hlt, List.getElem?_eq_getElem hlt]

variable [DecidableEq α]

theorem mem_seen_visit (h : ℕ) (s : Discovery α) (b : α) : b ∈ (s.visit h b).seen := by
  unfold Discovery.visit
  split
  · assumption
  · simp

theorem visit_isPrefix (h : ℕ) (s : Discovery α) (b : α) :
    s.seen <+: (s.visit h b).seen ∧ s.parents <+: (s.visit h b).parents := by
  unfold Discovery.visit
  split
  · exact ⟨List.prefix_rfl, List.prefix_rfl⟩
  · exact ⟨List.prefix_append _ _, List.prefix_append _ _⟩

/-- Element `head` looks at one of its successors. -/
theorem Explored.visit (h : Explored next a head (head + 1) s) {x b : α}
    (hx : s.seen[head]? = some x) (hb : b ∈ next x) :
    Explored next a head (head + 1) (s.visit head b) := by
  by_cases hmem : b ∈ s.seen
  · rw [Discovery.visit, if_pos hmem]
    exact h
  rw [Discovery.visit, if_neg hmem]
  have hlen := h.length
  have hpos : 0 < s.seen.length := (List.getElem?_eq_some_iff.mp h.seen_zero).1
  have hheadLt : head < s.seen.length := (List.getElem?_eq_some_iff.mp hx).1
  have hbefore : ∀ {v : ℕ} {p : ℕ} {y : α}, (s.parents ++ [head])[v]? = some p →
      (s.seen ++ [b])[v]? = some y →
      (s.parents[v]? = some p ∧ s.seen[v]? = some y) ∨
        (v = s.seen.length ∧ p = head ∧ y = b) := by
    intro v p y hp hy
    rcases getElem?_concat hp with hp | ⟨hv, rfl⟩ <;> rcases getElem?_concat hy with hy | ⟨hv', rfl⟩
    · exact .inl ⟨hp, hy⟩
    · have := (List.getElem?_eq_some_iff.mp hp).1
      omega
    · have := (List.getElem?_eq_some_iff.mp hy).1
      omega
    · exact .inr ⟨hv', rfl, rfl⟩
  have hkeep : ∀ {u : ℕ} {z : α}, s.seen[u]? = some z → (s.seen ++ [b])[u]? = some z := by
    intro u z hz
    rw [List.getElem?_append_left (List.getElem?_eq_some_iff.mp hz).1]
    exact hz
  -- an element that is not numbered yet is no successor of an expanded one
  have hfresh : ∀ u z, s.seen[u]? = some z → b ∈ next z → head ≤ u := by
    intro u z hz hbz
    by_contra hu
    exact hmem (h.closed u (by omega) z hz b hbz)
  constructor
  case seen_zero => exact hkeep h.seen_zero
  case parent_zero =>
    rw [List.getElem?_append_left (by omega)]
    exact h.parent_zero
  case length => simp [hlen]
  case nodup =>
    rw [List.nodup_append]
    refine ⟨h.nodup, List.nodup_singleton b, ?_⟩
    rintro y hy z hz rfl
    rw [List.mem_singleton.mp hz] at hy
    exact hmem hy
  case closed =>
    intro k hk z hz y hy
    rcases getElem?_concat hz with hz | ⟨hv, rfl⟩
    · exact List.mem_append_left _ (h.closed k hk z hz y hy)
    · omega
  case parent_lt =>
    intro v p hv hp
    rcases getElem?_concat hp with hp | ⟨rfl, rfl⟩
    · exact h.parent_lt v p hv hp
    · omega
  case parent_next =>
    intro v p y hv hp hy
    rcases hbefore hp hy with ⟨hp, hy⟩ | ⟨rfl, rfl, rfl⟩
    · obtain ⟨z, hz, hyz⟩ := h.parent_next v p y hv hp hy
      exact ⟨z, hkeep hz, hyz⟩
    · exact ⟨x, hkeep hx, hb⟩
  case parent_least =>
    intro v p u z y hv hp hy hz hyz
    rcases hbefore hp hy with ⟨hp, hy⟩ | ⟨rfl, rfl, rfl⟩
    · rcases getElem?_concat hz with hz' | ⟨hu, -⟩
      · exact h.parent_least v p u z y hv hp hy hz' hyz
      · have := (h.parent_lt v p hv hp).1
        have := (List.getElem?_eq_some_iff.mp hp).1
        omega
    · rcases getElem?_concat hz with hz | ⟨rfl, rfl⟩
      · exact hfresh u z hz hyz
      · omega
  case parent_mono =>
    intro v w p q hvw hp hq
    have hle : ∀ v p : ℕ, s.parents[v]? = some p → p ≤ head := by
      intro v p hp
      rcases Nat.eq_zero_or_pos v with rfl | hv
      · rw [h.parent_zero] at hp
        cases hp
        omega
      · have := (h.parent_lt v p hv hp).2
        omega
    rcases getElem?_concat hp with hp' | ⟨hv, hp'⟩ <;>
      rcases getElem?_concat hq with hq' | ⟨hw, hq'⟩
    · exact h.parent_mono v w p q hvw hp' hq'
    · exact hq' ▸ hle v p hp'
    · have := (List.getElem?_eq_some_iff.mp hq').1
      omega
    · omega

/-- Element `head` looks at several of its successors. -/
theorem Explored.visits (h : Explored next a head (head + 1) s) {x : α}
    (hx : s.seen[head]? = some x) {bs : List α} (hbs : ∀ b ∈ bs, b ∈ next x) :
    Explored next a head (head + 1) (bs.foldl (Discovery.visit head) s) ∧
      (∀ b ∈ bs, b ∈ (bs.foldl (Discovery.visit head) s).seen) ∧
      s.seen <+: (bs.foldl (Discovery.visit head) s).seen ∧
      s.parents <+: (bs.foldl (Discovery.visit head) s).parents := by
  induction bs generalizing s with
  | nil => exact ⟨h, by simp, List.prefix_rfl, List.prefix_rfl⟩
  | cons b bs ih =>
    have hVisit := h.visit hx (hbs b (by simp))
    obtain ⟨hSeen, hParents⟩ := visit_isPrefix head s b
    have hx' : (s.visit head b).seen[head]? = some x := getElem?_of_isPrefix hSeen hx
    obtain ⟨hE, hMem, hPre, hPrePar⟩ := ih hVisit hx' fun c hc => hbs c (by simp [hc])
    refine ⟨hE, ?_, hSeen.trans hPre, hParents.trans hPrePar⟩
    intro c hc
    rcases List.mem_cons.mp hc with rfl | hc
    · exact hPre.subset (mem_seen_visit head s c)
    · exact hMem c hc

theorem Explored.expand (h : Explored next a head head s) :
    Explored next a (head + 1) (head + 1) (s.expand next head) ∧
      s.seen <+: (s.expand next head).seen ∧ s.parents <+: (s.expand next head).parents := by
  unfold Discovery.expand
  cases hx : s.seen[head]? with
  | none =>
    refine ⟨{ h.mono_bound (Nat.le_succ head) with closed := ?_ }, List.prefix_rfl,
      List.prefix_rfl⟩
    intro k hk x hkx
    rcases Nat.lt_succ_iff_lt_or_eq.mp hk with hk | rfl
    · exact h.closed k hk x hkx
    · rw [hx] at hkx
      cases hkx
  | some x =>
    obtain ⟨hE, hMem, hSeen, hParents⟩ :=
      (h.mono_bound (Nat.le_succ head)).visits hx fun b (hb : b ∈ next x) => hb
    refine ⟨{ hE with closed := ?_ }, hSeen, hParents⟩
    intro k hk y hky
    rcases Nat.lt_succ_iff_lt_or_eq.mp hk with hk | rfl
    · exact hE.closed k hk y hky
    · rw [getElem?_of_isPrefix hSeen hx] at hky
      cases hky
      exact hMem

theorem explored_numbering (next : α → List α) (a : α) (k : ℕ) :
    Explored next a k k (numbering next a k) := by
  induction k with
  | zero => exact explored_start next a
  | succ k ih => exact ih.expand.1

theorem numbering_isPrefix (next : α → List α) (a : α) {j k : ℕ} (hjk : j ≤ k) :
    (numbering next a j).seen <+: (numbering next a k).seen ∧
      (numbering next a j).parents <+: (numbering next a k).parents := by
  induction k, hjk using Nat.le_induction with
  | base => exact ⟨List.prefix_rfl, List.prefix_rfl⟩
  | succ k _ ih =>
    have hStep := (explored_numbering next a k).expand.2
    exact ⟨ih.1.trans hStep.1, ih.2.trans hStep.2⟩

end Expand

/-! ### Levels -/

/-- The number of parents between an element and the start. -/
def level (parents : List ℕ) (v : ℕ) : ℕ :=
  if h : 0 < v ∧ parents.getD v v < v then level parents (parents.getD v v) + 1 else 0
termination_by v
decreasing_by exact h.2

@[simp] theorem level_zero (parents : List ℕ) : level parents 0 = 0 := by
  rw [level]
  simp

namespace Explored

variable {next : α → List α} {a : α} {head bound : ℕ} {s : Discovery α}

theorem level_eq (h : Explored next a head bound s) {v p : ℕ} (hv : 0 < v)
    (hp : s.parents[v]? = some p) : level s.parents v = level s.parents p + 1 := by
  have hget : s.parents.getD v v = p := by simp [List.getD_eq_getElem?_getD, hp]
  rw [level, dif_pos ⟨hv, by rw [hget]; exact (h.parent_lt v p hv hp).1⟩, hget]

theorem exists_parent (h : Explored next a head bound s) {v : ℕ} {y : α}
    (hy : s.seen[v]? = some y) : ∃ p, s.parents[v]? = some p := by
  have := (List.getElem?_eq_some_iff.mp hy).1
  exact ⟨_, List.getElem?_eq_getElem (by rw [h.length]; exact this)⟩

theorem exists_seen (h : Explored next a head bound s) {v p : ℕ}
    (hp : s.parents[v]? = some p) : ∃ y, s.seen[v]? = some y := by
  have := (List.getElem?_eq_some_iff.mp hp).1
  exact ⟨_, List.getElem?_eq_getElem (by rw [← h.length]; exact this)⟩

/-- Levels do not decrease with the number. -/
theorem level_mono (h : Explored next a head bound s) {v w : ℕ} (hvw : v ≤ w)
    (hw : w < s.seen.length) : level s.parents v ≤ level s.parents w := by
  induction w using Nat.strong_induction_on generalizing v with
  | _ w ih =>
    rcases Nat.eq_zero_or_pos v with rfl | hv
    · simp
    obtain ⟨p, hp⟩ := h.exists_parent (List.getElem?_eq_getElem (show v < s.seen.length by omega))
    obtain ⟨q, hq⟩ := h.exists_parent (List.getElem?_eq_getElem hw)
    have hqw := (h.parent_lt w q (by omega) hq).1
    rw [h.level_eq hv hp, h.level_eq (by omega) hq]
    have := ih q hqw (h.parent_mono v w p q hvw hp hq) (by omega)
    omega

/-- A successor is at most one level further. -/
theorem level_next (h : Explored next a head bound s) {u w : ℕ} {x y : α}
    (hx : s.seen[u]? = some x) (hy : s.seen[w]? = some y) (hxy : y ∈ next x) :
    level s.parents w ≤ level s.parents u + 1 := by
  rcases Nat.eq_zero_or_pos w with rfl | hw
  · simp
  obtain ⟨p, hp⟩ := h.exists_parent hy
  have hle := h.parent_least w p u x y hw hp hy hx hxy
  rw [h.level_eq hw hp]
  have := h.level_mono hle (List.getElem?_eq_some_iff.mp hx).1
  omega

theorem steps_level (h : Explored next a head bound s) {v : ℕ} {y : α}
    (hy : s.seen[v]? = some y) : Steps (fun x y => y ∈ next x) (level s.parents v) a y := by
  induction v using Nat.strong_induction_on generalizing y with
  | _ v ih =>
    rcases Nat.eq_zero_or_pos v with rfl | hv
    · rw [h.seen_zero] at hy
      cases hy
      rw [level_zero]
      exact .refl _
    obtain ⟨p, hp⟩ := h.exists_parent hy
    obtain ⟨x, hx, hxy⟩ := h.parent_next v p y hv hp hy
    rw [h.level_eq hv hp]
    exact .tail (ih p (h.parent_lt v p hv hp).1 hx) hxy

end Explored

namespace Complete

variable {next : α → List α} {a : α} {s : Discovery α}

/-- Everything that steps reach is numbered, at a level that the steps do not undercut. -/
theorem steps_seen (h : Complete next a s) {k : ℕ} {y : α}
    (hSteps : Steps (fun x y => y ∈ next x) k a y) :
    ∃ v, s.seen[v]? = some y ∧ level s.parents v ≤ k := by
  induction hSteps with
  | refl => exact ⟨0, h.seen_zero, by simp⟩
  | tail _ hStep ih =>
    obtain ⟨u, hu, hle⟩ := ih h
    have hmem := h.closed u (List.getElem?_eq_some_iff.mp hu).1 _ hu _ hStep
    obtain ⟨v, hv⟩ := List.getElem?_of_mem hmem
    have := h.level_next hu hv hStep
    exact ⟨v, hv, by omega⟩

theorem index_unique (h : Complete next a s) {u v : ℕ} {y : α} (hu : s.seen[u]? = some y)
    (hv : s.seen[v]? = some y) : u = v :=
  (List.getElem?_inj (List.getElem?_eq_some_iff.mp hu).1 h.nodup).mp (hu.trans hv.symm)

/-- The level of an element is its distance from the start. -/
theorem isDist (h : Complete next a s) {v : ℕ} {y : α} (hy : s.seen[v]? = some y) :
    IsDist (fun x y => y ∈ next x) a y (level s.parents v) := by
  refine ⟨h.steps_level hy, fun k hk => ?_⟩
  obtain ⟨w, hw, hle⟩ := h.steps_seen hk
  rwa [h.index_unique hy hw]

theorem mem_seen_iff (h : Complete next a s) {y : α} :
    y ∈ s.seen ↔ Relation.ReflTransGen (fun x y => y ∈ next x) a y := by
  rw [reachable_iff]
  constructor
  · intro hy
    obtain ⟨v, hv⟩ := List.getElem?_of_mem hy
    exact ⟨_, h.steps_level hv⟩
  · rintro ⟨k, hk⟩
    obtain ⟨v, hv, -⟩ := h.steps_seen hk
    exact List.mem_of_getElem? hv

end Complete

/-- All `k` numbered elements have been expanded after `k` expansions. -/
theorem complete_of_length [DecidableEq α] {next : α → List α} {a : α} {k : ℕ}
    (hk : (numbering next a k).seen.length = k) : Complete next a (numbering next a k) := by
  rw [Complete, hk]
  exact explored_numbering next a k

/-- Nothing changes once every numbered element has been expanded. -/
theorem numbering_stable [DecidableEq α] {next : α → List α} {a : α} {j k : ℕ}
    (hj : (numbering next a j).seen.length ≤ j) (hjk : j ≤ k) :
    numbering next a k = numbering next a j := by
  induction k, hjk using Nat.le_induction with
  | base => rfl
  | succ k hk ih => rw [numbering, ih, Discovery.expand, List.getElem?_eq_none (by omega)]

section Stages

variable [DecidableEq α] {next : α → List α} {a : α} {k : ℕ}
  (hk : (numbering next a k).seen.length = k)
include hk

/-- Every stage of the search is a part of its end. -/
theorem numbering_isPrefix_last (j : ℕ) :
    (numbering next a j).seen <+: (numbering next a k).seen ∧
      (numbering next a j).parents <+: (numbering next a k).parents := by
  rcases Nat.le_total j k with hjk | hkj
  · exact numbering_isPrefix next a hjk
  · rw [numbering_stable hk.le hkj]
    exact ⟨List.prefix_rfl, List.prefix_rfl⟩

/-- The search ends at one stage only. -/
theorem last_unique {j : ℕ} (hj : (numbering next a j).seen.length = j) : j = k := by
  rcases Nat.le_total j k with hjk | hkj
  · rw [← hj, ← hk, numbering_stable hj.le hjk]
  · rw [← hj, ← hk, numbering_stable hk.le hkj]

theorem lt_length_numbering {j : ℕ} (hj : j < k) : j < (numbering next a j).seen.length := by
  by_contra hle
  have hEq := numbering_stable (Nat.le_of_not_lt hle) hj.le
  rw [hEq] at hk
  omega

/-- An element is numbered when its parent is expanded, and not before. -/
theorem stage_of_parent {v p : ℕ} (hv : 0 < v) (hp : (numbering next a k).parents[v]? = some p) :
    (numbering next a p).seen.length ≤ v ∧ v < (numbering next a (p + 1)).seen.length := by
  have hc := complete_of_length hk
  obtain ⟨y, hy⟩ := hc.exists_seen hp
  obtain ⟨x, hx, hNext⟩ := hc.parent_next v p y hv hp hy
  have hpLt := (List.getElem?_eq_some_iff.mp hx).1
  constructor
  · by_contra hlt
    have hExp := explored_numbering next a p
    obtain ⟨q, hq⟩ :=
      hExp.exists_parent (List.getElem?_eq_getElem (Nat.lt_of_not_le hlt))
    have hSame := getElem?_of_isPrefix (numbering_isPrefix_last hk p).2 hq
    rw [hp] at hSame
    have := (hExp.parent_lt v q hv hq).2
    have := Option.some.inj hSame
    omega
  · have hPrefix := (numbering_isPrefix_last hk (p + 1)).1
    have hGrow := (numbering_isPrefix next a (Nat.le_succ p)).1.length_le
    have hpStage := lt_length_numbering hk (j := p) (by omega)
    have hxStage := List.getElem?_eq_getElem (hpStage.trans_le hGrow)
    rw [getElem?_of_isPrefix hPrefix hxStage] at hx
    rw [hx] at hxStage
    have hMem := (explored_numbering next a (p + 1)).closed p (Nat.lt_succ_self p) x hxStage y hNext
    obtain ⟨w, hw⟩ := List.getElem?_of_mem hMem
    rw [hc.index_unique hy (getElem?_of_isPrefix hPrefix hw)]
    exact (List.getElem?_eq_some_iff.mp hw).1

/-- The elements that wait for their expansion are on two levels. -/
theorem level_waiting {j v : ℕ} (hj : j < k) (hjv : j ≤ v)
    (hv : v < (numbering next a j).seen.length) :
    level (numbering next a k).parents j ≤ level (numbering next a k).parents v ∧
      level (numbering next a k).parents v ≤ level (numbering next a k).parents j + 1 := by
  have hc := complete_of_length hk
  have hvLast := hv.trans_le (numbering_isPrefix_last hk j).1.length_le
  refine ⟨hc.level_mono hjv hvLast, ?_⟩
  rcases Nat.eq_zero_or_pos v with rfl | hPos
  · simp
  have hExp := explored_numbering next a j
  obtain ⟨p, hp⟩ := hExp.exists_parent (List.getElem?_eq_getElem hv)
  have hpj := (hExp.parent_lt v p hPos hp).2
  rw [hc.level_eq hPos (getElem?_of_isPrefix (numbering_isPrefix_last hk j).2 hp)]
  exact Nat.succ_le_succ (hc.level_mono hpj.le (by omega))

end Stages

/-- Over a finite type the search stops: at a first `k` all `k` numbered elements are expanded. -/
theorem exists_last [DecidableEq α] [Fintype α] (next : α → List α) (a : α) :
    ∃ k ≤ Fintype.card α, (numbering next a k).seen.length = k ∧
      ∀ j < k, j < (numbering next a j).seen.length := by
  have hBound : ∀ k, (numbering next a k).seen.length ≤ Fintype.card α := fun k =>
    (explored_numbering next a k).nodup.length_le_card
  have hex : ∃ k, (numbering next a k).seen.length ≤ k := ⟨_, hBound _⟩
  have hMin : ∀ j < Nat.find hex, j < (numbering next a j).seen.length := fun j hj =>
    Nat.lt_of_not_le (Nat.find_min hex hj)
  have hLe : Nat.find hex ≤ (numbering next a (Nat.find hex)).seen.length := by
    rcases Nat.eq_zero_or_pos (Nat.find hex) with h0 | hpos
    · omega
    · have hPrev := hMin (Nat.find hex - 1) (by omega)
      have hGrow := (numbering_isPrefix next a (Nat.sub_le (Nat.find hex) 1)).1.length_le
      omega
  have hEq := Nat.le_antisymm (Nat.find_spec hex) hLe
  exact ⟨Nat.find hex, hEq ▸ hBound _, hEq, hMin⟩

end Search.Bfs
