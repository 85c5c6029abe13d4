import Mathlib.Algebra.BigOperators.Group.List.Basic
import Mathlib.Algebra.Ring.Int.Defs
import Mathlib.Data.List.Sort

/-!
# Lib.PriorityQueue — a priority queue by what its head promises

A library priority queue documents three things: its head is a least element,
adding puts one element in, polling takes the head out. Which of several least
elements is the head, and in which order the others are kept, it leaves open.
`PriorityQueue Q α le` is that contract for a queue type `Q`, so a result
proved from it holds for every way of breaking ties. `SortedQueue` is one
implementation, used where a queue has to be computed with.
-/

namespace MobiPerf.Lib

/-- Queues of type `Q` over elements ordered by `le`. `toList` lists the
elements with the head first; the order of the others is the queue's own. -/
class PriorityQueue (Q : Type*) (α : outParam (Type*)) (le : outParam (α → α → Prop)) where
  toList : Q → List α
  empty : Q
  add : Q → α → Q
  poll : Q → Q
  /-- take out the first element of `toList` that passes the test -/
  removeFirst : Q → (α → Bool) → Q
  toList_empty : toList empty = []
  toList_add : ∀ q a, (toList (add q a)).Perm (a :: toList q)
  toList_poll : ∀ q, (toList (poll q)).Perm (toList q).tail
  toList_removeFirst : ∀ q p, (toList (removeFirst q p)).Perm ((toList q).eraseP p)
  head_le : ∀ q h, h ∈ (toList q).head? → ∀ a ∈ toList q, le h a

namespace PriorityQueue

variable {Q α : Type*} {le : α → α → Prop} [PriorityQueue Q α le]

/-- The head, if there is one. -/
def peek (q : Q) : Option α := (toList q).head?

/-- The number of elements. -/
def size (q : Q) : ℕ := (toList q).length

theorem peek_le {q : Q} {h : α} (hp : peek q = some h) : ∀ a ∈ toList q, le h a :=
  head_le q h hp

theorem peek_mem {q : Q} {h : α} (hp : peek q = some h) : h ∈ toList q :=
  List.mem_of_head? hp

@[simp] theorem mem_add {q : Q} {a b : α} : b ∈ toList (add q a) ↔ b = a ∨ b ∈ toList q := by
  rw [(toList_add q a).mem_iff, List.mem_cons]

/-- The elements are the head and what polling leaves. -/
theorem perm_of_peek {q : Q} {h : α} (hp : peek q = some h) :
    (toList q).Perm (h :: toList (poll q)) := by
  rcases List.head?_eq_some_iff.mp hp with ⟨tl, htl⟩
  have hpoll := toList_poll q
  rw [htl] at hpoll ⊢
  exact (hpoll.symm).cons h

/-- An element is the head, or polling leaves it. -/
theorem peek_or_mem_poll {q : Q} {a : α} (ha : a ∈ toList q) :
    peek q = some a ∨ a ∈ toList (poll q) := by
  cases hpeek : peek q with
  | none =>
      have hempty : toList q = [] := List.head?_eq_none_iff.mp hpeek
      rw [hempty] at ha
      exact absurd ha List.not_mem_nil
  | some h =>
      rcases List.mem_cons.mp ((perm_of_peek hpeek).mem_iff.mp ha) with rfl | hrest
      · exact .inl rfl
      · exact .inr hrest

/-- Taking elements out leaves a part of the queue. -/
theorem poll_subperm (q : Q) : (toList (poll q)).Subperm (toList q) :=
  (toList_poll q).subperm.trans (List.tail_sublist _).subperm

theorem removeFirst_subperm (q : Q) (p : α → Bool) :
    (toList (removeFirst q p)).Subperm (toList q) :=
  (toList_removeFirst q p).subperm.trans List.eraseP_sublist.subperm

theorem empty_subperm (q : Q) : (toList (empty : Q)).Subperm (toList q) := by
  rw [toList_empty]
  exact List.nil_subperm

theorem size_poll (q : Q) : size (poll q) = size q - 1 := by
  simpa [size] using (toList_poll q).length_eq

/-- A quantity of the elements, summed up. -/
def total (f : α → ℤ) (q : Q) : ℤ := ((toList q).map f).sum

theorem total_empty (f : α → ℤ) : total f (empty : Q) = 0 := by
  rw [total, toList_empty]
  rfl

theorem total_add (f : α → ℤ) (q : Q) (a : α) : total f (add q a) = f a + total f q := by
  rw [total, ((toList_add q a).map f).sum_eq, List.map_cons, List.sum_cons, total]

theorem total_of_peek {f : α → ℤ} {q : Q} {h : α} (hp : peek q = some h) :
    total f q = f h + total f (poll q) := by
  rw [total, ((perm_of_peek hp).map f).sum_eq, List.map_cons, List.sum_cons, total]

theorem total_congr {f g : α → ℤ} {q : Q} (h : ∀ a ∈ toList q, f a = g a) :
    total f q = total g q := by
  rw [total, total, List.map_congr_left h]

/-- Taking elements out does not add to a quantity none of them has less than
nothing of. -/
theorem total_le_of_subperm {f : α → ℤ} {q q' : Q} (h : (toList q').Subperm (toList q))
    (hf : ∀ a ∈ toList q, 0 ≤ f a) : total f q' ≤ total f q := by
  obtain ⟨l, hperm, hsub⟩ := h
  rw [total, total, ← (hperm.map f).sum_eq]
  generalize toList q = l' at hsub hf
  clear hperm
  induction hsub with
  | slnil => exact le_refl _
  | cons a hsub ih =>
      simp only [List.forall_mem_cons] at hf
      rw [List.map_cons, List.sum_cons]
      have hrest := ih hf.2
      omega
  | cons_cons a hsub ih =>
      simp only [List.forall_mem_cons] at hf
      rw [List.map_cons, List.map_cons, List.sum_cons, List.sum_cons]
      have hrest := ih hf.2
      omega

end PriorityQueue

/-- A queue kept as a sorted list. -/
structure SortedQueue {α : Type*} (le : α → α → Prop) where
  elems : List α
  sorted : elems.Pairwise le

namespace SortedQueue

variable {α : Type*} {le : α → α → Prop} [DecidableRel le] [Std.Total le] [IsTrans α le]

instance : PriorityQueue (SortedQueue le) α le where
  toList q := q.elems
  empty := ⟨[], List.Pairwise.nil⟩
  add q a := ⟨q.elems.orderedInsert le a, q.sorted.orderedInsert a _⟩
  poll q := ⟨q.elems.tail, q.sorted.tail⟩
  removeFirst q p := ⟨q.elems.eraseP p, q.sorted.sublist List.eraseP_sublist⟩
  toList_empty := rfl
  toList_add q a := List.perm_orderedInsert le a q.elems
  toList_poll q := List.Perm.refl _
  toList_removeFirst q p := List.Perm.refl _
  head_le := by
    intro q h hh a ha
    rcases List.head?_eq_some_iff.mp hh with ⟨tl, htl⟩
    have hsorted := q.sorted
    rw [htl] at hsorted ha
    rcases List.mem_cons.mp ha with rfl | hat
    · exact (Std.Total.total a a).elim id id
    · exact (List.pairwise_cons.mp hsorted).1 a hat

end SortedQueue

end MobiPerf.Lib
