import Mathlib.Data.List.Basic

/-! The orders in which the actions of two threads can happen. -/

namespace Concurrent

variable {α : Type}

/-- The third list has the elements of the other two, those of each one in their order. -/
inductive Interleave : List α → List α → List α → Prop
  | nil : Interleave [] [] []
  | left {a : α} {as bs cs : List α} (h : Interleave as bs cs) : Interleave (a :: as) bs (a :: cs)
  | right {b : α} {as bs cs : List α} (h : Interleave as bs cs) : Interleave as (b :: bs) (b :: cs)

namespace Interleave

theorem nil_left (bs : List α) : Interleave [] bs bs := by
  induction bs with
  | nil => exact .nil
  | cons b bs ih => exact .right ih

theorem nil_right (as : List α) : Interleave as [] as := by
  induction as with
  | nil => exact .nil
  | cons a as ih => exact .left ih

theorem append {as bs cs as' bs' cs' : List α} (h : Interleave as bs cs)
    (h' : Interleave as' bs' cs') : Interleave (as ++ as') (bs ++ bs') (cs ++ cs') := by
  induction h with
  | nil => exact h'
  | left h ih => exact .left ih
  | right h ih => exact .right ih

theorem prepend {as bs cs : List α} (h : Interleave as bs cs) (l : List α) :
    Interleave (l ++ as) bs (l ++ cs) :=
  (nil_right l).append h

theorem eq_of_nil_left {bs cs : List α} (h : Interleave [] bs cs) : cs = bs := by
  induction bs generalizing cs with
  | nil =>
    cases h
    rfl
  | cons b bs ih =>
    cases h with
    | right h => rw [ih h]

theorem map {β : Type} (f : α → β) {as bs cs : List α} (h : Interleave as bs cs) :
    Interleave (as.map f) (bs.map f) (cs.map f) := by
  induction h with
  | nil => exact .nil
  | left h ih => exact .left ih
  | right h ih => exact .right ih

theorem filterMap {β : Type} (f : α → Option β) {as bs cs : List α} (h : Interleave as bs cs) :
    Interleave (as.filterMap f) (bs.filterMap f) (cs.filterMap f) := by
  induction h with
  | nil => exact .nil
  | @left a as bs cs _ ih =>
    cases hOne : f a with
    | none =>
      rw [List.filterMap_cons_none hOne, List.filterMap_cons_none hOne]
      exact ih
    | some b =>
      rw [List.filterMap_cons_some hOne, List.filterMap_cons_some hOne]
      exact .left ih
  | @right b as bs cs _ ih =>
    cases hOne : f b with
    | none =>
      rw [List.filterMap_cons_none hOne, List.filterMap_cons_none hOne]
      exact ih
    | some c =>
      rw [List.filterMap_cons_some hOne, List.filterMap_cons_some hOne]
      exact .right ih

end Interleave

end Concurrent
