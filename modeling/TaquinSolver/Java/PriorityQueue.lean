import Mathlib.Data.Multiset.AddSub

/-! `java.util.PriorityQueue` with a comparator, by its contract alone.  `PriorityQueue compare` is
any implementation with queues as a type of its own: `add` queues an element, and `poll` removes one
that no queued element precedes.  Nothing else is asked of `poll`, so the choice among equal
elements is the implementation's, and may depend on everything that happened to the queue before.
`scanning` is an implementation, for a comparator that is a weak order, and `coarsen` makes one that
settles ties by a finer comparator. -/

namespace Java

/-- An implementation of priority queues for the comparator `compare`. -/
structure PriorityQueue {α : Type} (compare : α → α → Int) where
  Heap : Type
  empty : Heap
  add : Heap → α → Heap
  poll : Heap → Option (α × Heap)
  elems : Heap → Multiset α
  elems_empty : elems empty = 0
  elems_add : ∀ h a, elems (add h a) = a ::ₘ elems h
  elems_of_poll_none : ∀ h, poll h = none → elems h = 0
  elems_of_poll : ∀ h a h', poll h = some (a, h') → elems h = a ::ₘ elems h'
  poll_least : ∀ h a h', poll h = some (a, h') → ∀ b ∈ elems h, ¬compare b a < 0

namespace PriorityQueue

variable {α : Type} {compare : α → α → Int}

/-- `PriorityQueue.isEmpty`. -/
def isEmpty (pq : PriorityQueue compare) (h : pq.Heap) : Bool := (pq.poll h).isNone

/-- `add` for each element of a list. -/
def addAll (pq : PriorityQueue compare) (h : pq.Heap) (l : List α) : pq.Heap := l.foldl pq.add h

theorem elems_addAll (pq : PriorityQueue compare) (h : pq.Heap) (l : List α) :
    pq.elems (pq.addAll h l) = l + pq.elems h := by
  induction l generalizing h with
  | nil => simp [addAll]
  | cons a l ih =>
    rw [show pq.addAll h (a :: l) = pq.addAll (pq.add h a) l from rfl, ih, pq.elems_add,
      ← Multiset.cons_coe, Multiset.cons_add, Multiset.add_cons]

/-- Remove from a list the first of its least elements. -/
def scan (compare : α → α → Int) : List α → Option (α × List α)
  | [] => none
  | a :: l =>
    match scan compare l with
    | none => some (a, [])
    | some (b, rest) => if compare b a < 0 then some (b, a :: rest) else some (a, b :: rest)

theorem scan_eq_none {l : List α} (h : scan compare l = none) : l = [] := by
  cases l with
  | nil => rfl
  | cons a l =>
    simp only [scan] at h
    split at h
    · cases h
    · split at h <;> cases h

theorem scan_perm {l : List α} {a : α} {rest : List α} (h : scan compare l = some (a, rest)) :
    l.Perm (a :: rest) := by
  induction l generalizing a rest with
  | nil => cases h
  | cons c l ih =>
    simp only [scan] at h
    split at h
    · rename_i hnone
      cases h
      rw [scan_eq_none hnone]
    · rename_i b rest' hsome
      split at h
      · cases h
        exact ((ih hsome).cons c).trans (.swap _ _ _)
      · cases h
        exact (ih hsome).cons _

theorem scan_least (asymm : ∀ a b, compare a b < 0 → ¬compare b a < 0)
    (trans : ∀ a b c, ¬compare b a < 0 → ¬compare c b < 0 → ¬compare c a < 0)
    {l : List α} {a : α} {rest : List α} (h : scan compare l = some (a, rest)) :
    ∀ b ∈ l, ¬compare b a < 0 := by
  induction l generalizing a rest with
  | nil => simp
  | cons c l ih =>
    have irrefl : ∀ a, ¬compare a a < 0 := fun a ha => asymm a a ha ha
    simp only [scan] at h
    split at h
    · rename_i hnone
      cases h
      rw [scan_eq_none hnone]
      simpa using irrefl c
    · rename_i b rest' hsome
      have hb := ih hsome
      split at h
      · rename_i hlt
        cases h
        intro d hd
        rcases List.mem_cons.mp hd with rfl | hd
        · exact asymm _ _ hlt
        · exact hb d hd
      · rename_i hnot
        cases h
        intro d hd
        rcases List.mem_cons.mp hd with rfl | hd
        · exact irrefl _
        · exact trans _ _ _ hnot (hb d hd)

/-- The queue as the list of its elements, scanned for a least one by each `poll`. -/
def scanning (compare : α → α → Int) (asymm : ∀ a b, compare a b < 0 → ¬compare b a < 0)
    (trans : ∀ a b c, ¬compare b a < 0 → ¬compare c b < 0 → ¬compare c a < 0) :
    PriorityQueue compare where
  Heap := List α
  empty := []
  add l a := a :: l
  poll := scan compare
  elems l := l
  elems_empty := rfl
  elems_add _ _ := rfl
  elems_of_poll_none l h := by
    rw [scan_eq_none h]
    rfl
  elems_of_poll l a l' h := Multiset.coe_eq_coe.mpr (scan_perm h)
  poll_least l a l' h b hb := scan_least asymm trans h b (Multiset.mem_coe.mp hb)

/-- A queue for a finer comparator is one for a coarser: the choice among the elements that are
equal for the coarser is the finer's. -/
def coarsen {compare compare' : α → α → Int} (pq : PriorityQueue compare)
    (hFiner : ∀ a b, compare' a b < 0 → compare a b < 0) : PriorityQueue compare' where
  Heap := pq.Heap
  empty := pq.empty
  add := pq.add
  poll := pq.poll
  elems := pq.elems
  elems_empty := pq.elems_empty
  elems_add := pq.elems_add
  elems_of_poll_none := pq.elems_of_poll_none
  elems_of_poll := pq.elems_of_poll
  poll_least h a h' hPoll b hb hLess := pq.poll_least h a h' hPoll b hb (hFiner b a hLess)

end PriorityQueue

end Java
