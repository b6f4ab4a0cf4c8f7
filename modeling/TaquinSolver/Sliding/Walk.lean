import Mathlib.GroupTheory.SpecificGroups.Alternating
import Mathlib.Logic.Relation

/-! Sliding puzzles on a graph of cells.  A walk of the blank permutes the cells' contents, whatever
they are; `Slide adj o π o'` says that some walk from `o` to `o'` does so by `π`.  The closed walks
at `o` form a group (`loops`), which holds the 3-cycles around the squares that the blank can walk
to.  `Joined.step` and `mem_of_sign` are the general part of the puzzle theorem: when from two base
cells every other cell is reached by 3-cycles of a group, each with two cells reached before, the
group holds every even permutation that fixes `o`. -/

namespace Sliding

open Equiv Equiv.Perm

variable {V : Type} [DecidableEq V]

/-- Some walk of the blank from `o` to `o'` leaves in each cell `v` what was in `π v`. -/
inductive Slide (adj : V → V → Prop) : V → Perm V → V → Prop
  | refl (o : V) : Slide adj o 1 o
  | step {o o' o'' : V} {π : Perm V} : adj o o' → Slide adj o' π o'' →
      Slide adj o (swap o o' * π) o''

/-- A step of the blank that stays out of `A`. -/
def StepOff (adj : V → V → Prop) (A : Set V) (u v : V) : Prop := adj u v ∧ u ∉ A ∧ v ∉ A

namespace Slide

variable {adj : V → V → Prop} {o o' o'' : V} {π ρ : Perm V}

theorem single (h : adj o o') : Slide adj o (swap o o') o' := by
  simpa using step h (refl o')

theorem trans (h : Slide adj o π o') (h' : Slide adj o' ρ o'') : Slide adj o (π * ρ) o'' := by
  induction h with
  | refl => simpa using h'
  | step hAdj _ ih =>
    rw [mul_assoc]
    exact step hAdj (ih h')

theorem symm (hadj : ∀ u v, adj u v → adj v u) (h : Slide adj o π o') : Slide adj o' π⁻¹ o := by
  induction h with
  | refl => simpa using refl _
  | step hAdj _ ih =>
    rw [mul_inv_rev, swap_inv, swap_comm]
    exact ih.trans (single (hadj _ _ hAdj))

/-- A walk that keeps out of `A` changes nothing in `A`. -/
theorem exists_of_path {A : Set V}
    (h : Relation.ReflTransGen (StepOff adj A) o o') :
    ∃ π, Slide adj o π o' ∧ ∀ v ∈ A, π v = v := by
  induction h with
  | refl => exact ⟨1, refl o, fun _ _ => rfl⟩
  | @tail u w _ hStep ih =>
    obtain ⟨π, hπ, hFix⟩ := ih
    refine ⟨π * swap u w, hπ.trans (single hStep.1), fun v hv => ?_⟩
    have hu : v ≠ u := fun h => hStep.2.1 (h ▸ hv)
    have hw : v ≠ w := fun h => hStep.2.2 (h ▸ hv)
    rw [coe_mul, Function.comp_apply, swap_apply_of_ne_of_ne hu hw, hFix v hv]

end Slide

/-- The permutations by closed walks of the blank at `o`. -/
def loops (adj : V → V → Prop) (hadj : ∀ u v, adj u v → adj v u) (o : V) : Subgroup (Perm V) where
  carrier := {π | Slide adj o π o}
  mul_mem' := Slide.trans
  one_mem' := .refl o
  inv_mem' := Slide.symm hadj

/-! ### 3-cycles -/

/-- The permutation that takes `a` to `b`, `b` to `c` and `c` to `a`. -/
def cycle (a b c : V) : Perm V := swap a b * swap b c

theorem conj_cycle (π : Perm V) (a b c : V) :
    π * cycle a b c * π⁻¹ = cycle (π a) (π b) (π c) := by
  simp only [cycle, swap_apply_apply]
  group

theorem cycle_rotate {a b c : V} (hab : a ≠ b) (hbc : b ≠ c) (hac : a ≠ c) :
    cycle a b c = cycle b c a := by
  ext v
  simp only [cycle, coe_mul, Function.comp_apply, swap_apply_def]
  grind

theorem cycle_inv {a b c : V} (hab : a ≠ b) (hbc : b ≠ c) (hac : a ≠ c) :
    (cycle a b c)⁻¹ = cycle b a c := by
  rw [cycle, mul_inv_rev, swap_inv, swap_inv]
  ext v
  simp only [cycle, coe_mul, Function.comp_apply, swap_apply_def]
  grind

/-- A walk of the blank around a square is a 3-cycle of the other corners. -/
theorem slide_square {adj : V → V → Prop} {s p q r : V} (hsp : adj s p) (hpq : adj p q)
    (hqr : adj q r) (hrs : adj r s) (hd : [s, p, q, r].Nodup) : Slide adj s (cycle p q r) s := by
  have h : Slide adj s (swap s p * (swap p q * (swap q r * (swap r s * 1)))) s :=
    .step hsp (.step hpq (.step hqr (.step hrs (.refl s))))
  convert h using 1
  simp only [List.nodup_cons, List.mem_cons, List.not_mem_nil, not_or, or_false, not_false_eq_true,
    List.nodup_nil, and_true] at hd
  ext v
  simp only [cycle, coe_mul, Function.comp_apply, swap_apply_def, mul_one]
  grind

/-- A walk to a square, around it, and back. -/
theorem cycle_mem_loops {adj : V → V → Prop} {hadj : ∀ u v, adj u v → adj v u}
    {o s p q r : V} (hsp : adj s p) (hpq : adj p q) (hqr : adj q r) (hrs : adj r s)
    (hd : [s, p, q, r].Nodup)
    (hPath : Relation.ReflTransGen (StepOff adj {p, q, r}) o s) :
    cycle p q r ∈ loops adj hadj o := by
  obtain ⟨π, hπ, hFix⟩ := Slide.exists_of_path hPath
  have h := (hπ.trans (slide_square hsp hpq hqr hrs hd)).trans (hπ.symm hadj)
  rwa [conj_cycle, hFix p (by simp), hFix q (by simp), hFix r (by simp)] at h

section Generation

variable {H : Subgroup (Perm V)}

/-- `H` holds every 3-cycle of distinct elements of `S`. -/
def HasCycles (H : Subgroup (Perm V)) (S : Set V) : Prop :=
  ∀ a ∈ S, ∀ b ∈ S, ∀ c ∈ S, a ≠ b → b ≠ c → a ≠ c → cycle a b c ∈ H

/-- One 3-cycle with a new element and two old ones gives all of them. -/
theorem HasCycles.insert {S : Set V} (hS : HasCycles H S) {p q x : V} (hp : p ∈ S) (hq : q ∈ S)
    (hpq : p ≠ q) (hx : x ∉ S) (h : cycle p q x ∈ H) : HasCycles H (Insert.insert x S) := by
  have ne : ∀ {u}, u ∈ S → u ≠ x := fun hu e => hx (e ▸ hu)
  -- from a pair to the pairs that start with its second element
  have next : ∀ u ∈ S, ∀ v ∈ S, u ≠ v → cycle u v x ∈ H → ∀ w ∈ S, w ≠ v → cycle v w x ∈ H := by
    intro u hu v hv huv hmem w hw hwv
    by_cases hwu : w = u
    · subst hwu
      rw [← cycle_inv huv (ne hv) (ne hu)]
      exact inv_mem hmem
    · have hc := hS u hu v hv w hw huv (Ne.symm hwv) (Ne.symm hwu)
      have hConj := mul_mem (mul_mem hc hmem) (inv_mem hc)
      rw [conj_cycle] at hConj
      have h1 : cycle u v w u = v := by
        simp only [cycle, coe_mul, Function.comp_apply, swap_apply_def]
        grind
      have h2 : cycle u v w v = w := by
        simp only [cycle, coe_mul, Function.comp_apply, swap_apply_def]
        grind
      have h3 : cycle u v w x = x := by
        have := ne hu
        have := ne hv
        have := ne hw
        simp only [cycle, coe_mul, Function.comp_apply, swap_apply_def]
        grind
      rwa [h1, h2, h3] at hConj
  have pair : ∀ u ∈ S, ∀ v ∈ S, u ≠ v → cycle u v x ∈ H := by
    intro u hu v hv huv
    by_cases huq : u = q
    · subst huq
      exact next p hp u hu hpq h v hv (Ne.symm huv)
    · exact next q hq u hu (Ne.symm huq) (next p hp q hq hpq h u hu huq) v hv (Ne.symm huv)
  intro a ha b hb c hc hab hbc hac
  rcases ha with rfl | ha
  · have hb := hb.resolve_left (Ne.symm hab)
    have hc := hc.resolve_left (Ne.symm hac)
    rw [cycle_rotate hab hbc hac]
    exact pair b hb c hc hbc
  rcases hb with rfl | hb
  · have hc := hc.resolve_left (Ne.symm hbc)
    rw [cycle_rotate hab hbc hac, cycle_rotate hbc (Ne.symm hac) (Ne.symm hab)]
    exact pair c hc a ha (Ne.symm hac)
  rcases hc with rfl | hc
  · exact pair a ha b hb hab
  · exact hS a ha b hb c hc hab hbc hac

/-- The elements reached from the base elements `a` and `b` by 3-cycles of `H`. -/
def Joined (H : Subgroup (Perm V)) (a b x : V) : Prop := x = a ∨ x = b ∨ cycle a b x ∈ H

theorem HasCycles.insert_joined {a b : V} (hab : a ≠ b) {S : Set V} (hS : HasCycles H S)
    (ha : a ∈ S) (hb : b ∈ S) {x : V} (hx : Joined H a b x) : HasCycles H (Insert.insert x S) := by
  by_cases hmem : x ∈ S
  · rwa [Set.insert_eq_of_mem hmem]
  rcases hx with rfl | rfl | hx
  · exact absurd ha hmem
  · exact absurd hb hmem
  · exact hS.insert ha hb hab hmem hx

theorem hasCycles_joined {a b : V} (hab : a ≠ b) : HasCycles H {x | Joined H a b x} := by
  have base : HasCycles H {a, b} := by
    rintro u (rfl | rfl) v (rfl | rfl) w (rfl | rfl) huv hvw huw <;> simp_all
  intro u hu v hv w hw huv hvw huw
  have hAll := ((base.insert_joined hab (by simp) (by simp) hu).insert_joined hab (by simp)
    (by simp) hv).insert_joined hab (by simp) (by simp) hw
  exact hAll u (by simp) v (by simp) w (by simp) huv hvw huw

/-- A 3-cycle with two joined elements joins the third. -/
theorem Joined.step {a b p q x : V} (hab : a ≠ b) (hp : Joined H a b p) (hq : Joined H a b q)
    (hpq : p ≠ q) (h : cycle p q x ∈ H) : Joined H a b x := by
  by_contra hx
  have hJoined : HasCycles H {y | Joined H a b y} := hasCycles_joined hab
  have hAll := hJoined.insert hp hq hpq hx h
  have hxa : x ≠ a := fun e => hx (.inl e)
  have hxb : x ≠ b := fun e => hx (.inr (.inl e))
  exact hx (.inr (.inr (hAll a (.inr (.inl rfl)) b (.inr (.inr (.inl rfl))) x (.inl rfl) hab
    (Ne.symm hxb) (Ne.symm hxa))))

variable [Fintype V]

/-- A group with every 3-cycle off `o` holds every even permutation that fixes `o`. -/
theorem mem_of_sign {o : V} (hH : HasCycles H {v | v ≠ o}) {π : Perm V} (ho : π o = o)
    (hSign : sign π = 1) : π ∈ H := by
  have hIff : ∀ x, π x ≠ o ↔ x ≠ o := fun x => by
    rw [not_iff_not]
    constructor
    · intro h
      exact π.injective (h.trans ho.symm)
    · rintro rfl
      exact ho
  have hMoves : ∀ x, π x ≠ x → x ≠ o := by
    rintro x hx rfl
    exact hx ho
  have hEven : π.subtypePerm hIff ∈ alternatingGroup {v // v ≠ o} := by
    rw [mem_alternatingGroup, sign_subtypePerm _ _ hMoves, hSign]
  have hThree : alternatingGroup {v // v ≠ o} ≤ H.comap (ofSubtype (p := fun v => v ≠ o)) := by
    rw [← closure_three_cycles_eq_alternating, Subgroup.closure_le]
    intro σ hσ
    obtain ⟨x, hx⟩ : σ.support.Nonempty := by
      rw [← Finset.card_pos, IsThreeCycle.card_support hσ]
      decide
    have hd := (IsThreeCycle.nodup_iff_mem_support hσ).mpr hx
    rw [SetLike.mem_coe, Subgroup.mem_comap,
      (IsThreeCycle.eq_swap_mul_swap_iff_mem_support hσ).mpr hx, map_mul, ofSubtype_swap_eq,
      ofSubtype_swap_eq]
    simp only [List.nodup_cons, List.mem_cons, List.not_mem_nil, or_false, not_or] at hd
    exact hH _ x.2 _ (σ x).2 _ (σ (σ x)).2 (fun e => hd.1.1 (Subtype.ext e))
      (fun e => hd.2.1 (Subtype.ext e)) (fun e => hd.1.2 (Subtype.ext e))
  have hmem := hThree hEven
  rwa [Subgroup.mem_comap, ofSubtype_subtypePerm _ hMoves] at hmem

end Generation

end Sliding
