import Mathlib.Data.List.Basic

/-!
# Lib.Recent — the latest of a run, newest first

A list takes each element on top and lets the oldest go when it gets longer than
its bound.

* `foldl_push_recent`: after any run it holds the latest elements, newest first;
* `foldl_push_reverse`: replaying such a list from its end builds it again.
-/

namespace MobiPerf.Lib

universe u

variable {α : Type u}

/-- `x` on top of `l`, and off with the last one when there are more than `n`. -/
def push (n : ℕ) (l : List α) (x : α) : List α :=
  let l := x :: l
  if l.length > n then l.dropLast else l

/-- The last `n` of `xs`, newest first. -/
def recent (n : ℕ) (xs : List α) : List α := xs.reverse.take n

variable {n : ℕ} {l : List α} {x : α}

theorem length_recent_le (n : ℕ) (xs : List α) : (recent n xs).length ≤ n := by
  unfold recent
  rw [List.length_take]
  exact Nat.min_le_left _ _

theorem push_of_length_le (h : l.length ≤ n) : push n l x = (x :: l).take n := by
  unfold push
  dsimp only
  have hlength : (x :: l).length = l.length + 1 := List.length_cons
  split
  · rename_i hlong
    have hfull : (x :: l).length - 1 = n := by omega
    rw [List.dropLast_eq_take, hfull]
  · rename_i hshort
    exact (List.take_of_length_le (by omega)).symm

theorem push_recent (n : ℕ) (xs : List α) (x : α) :
    push n (recent n xs) x = recent n (xs ++ [x]) := by
  rw [push_of_length_le (length_recent_le n xs)]
  unfold recent
  rw [List.reverse_append, List.reverse_singleton, List.singleton_append]
  cases n with
  | zero => rw [List.take_zero, List.take_zero]
  | succ n =>
      -- the element that was let go is below the bound either way
      rw [List.take_succ_cons, List.take_succ_cons, List.take_take, Nat.min_eq_left (Nat.le_succ n)]

theorem foldl_push_recent (n : ℕ) (xs ys : List α) :
    ys.foldl (push n) (recent n xs) = recent n (xs ++ ys) := by
  induction ys generalizing xs with
  | nil => rw [List.foldl_nil, List.append_nil]
  | cons y ys ih =>
      rw [List.foldl_cons, push_recent, ih, List.append_assoc, List.singleton_append]

theorem foldl_push_nil (n : ℕ) (xs : List α) : xs.foldl (push n) [] = recent n xs := by
  have hnil : recent n ([] : List α) = [] := List.take_nil
  rw [← hnil, foldl_push_recent, List.nil_append]

/-- A list within the bound is what its own replay leaves. -/
theorem foldl_push_reverse (h : l.length ≤ n) : l.reverse.foldl (push n) [] = l := by
  rw [foldl_push_nil]
  unfold recent
  rw [List.reverse_reverse, List.take_of_length_le h]

end MobiPerf.Lib
