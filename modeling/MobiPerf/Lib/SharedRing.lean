import Mathlib.Data.Nat.ModEq
import Mathlib.Logic.Function.Basic

/-!
# Lib.SharedRing — a ring of frames between two parties

Each frame has a flag that says whose it is: the producer fills frames that are not
full and the consumer clears full ones, both in the order of the ring. `Holds` reads
the ring as a queue from the consumer's position on. The rules say what filling and
clearing do to the queue, and what one flag says about its length.
-/

namespace MobiPerf.Lib

variable {α : Type*}

/-- The frames and their flags. -/
structure SharedRing (α : Type*) where
  full : ℕ → Bool
  frame : ℕ → α

namespace SharedRing

def fill (r : SharedRing α) (i : ℕ) (x : α) : SharedRing α where
  full := Function.update r.full i true
  frame := Function.update r.frame i x

def clear (r : SharedRing α) (i : ℕ) : SharedRing α :=
  { r with full := Function.update r.full i false }

/-- From the position `b` on, the ring of `n` frames holds `q`. -/
structure Holds (r : SharedRing α) (n b : ℕ) (q : List α) : Prop where
  base : b < n
  length : q.length ≤ n
  full : ∀ j < n, r.full ((b + j) % n) = decide (j < q.length)
  frame : ∀ j x, q[j]? = some x → r.frame ((b + j) % n) = x

section Positions

variable {n b j k : ℕ}

/-- Positions at different distances are different. -/
theorem position_inj (hj : j < n) (hk : k < n) (h : (b + j) % n = (b + k) % n) : j = k := by
  have hmod : j ≡ k [MOD n] := Nat.ModEq.add_left_cancel' b h
  rwa [Nat.ModEq, Nat.mod_eq_of_lt hj, Nat.mod_eq_of_lt hk] at hmod

theorem position_zero (hb : b < n) : (b + 0) % n = b := Nat.mod_eq_of_lt hb

theorem position_succ : ((b + 1) % n + j) % n = (b + (j + 1)) % n := by
  rw [Nat.mod_add_mod, Nat.add_assoc, Nat.add_comm 1 j]

theorem position_add : (b + (j + n)) % n = (b + j) % n := by
  rw [← Nat.add_assoc, Nat.add_mod_right]

/-- A position from which some steps lead to `b`, as one ahead of `b`. -/
theorem position_back {i m : ℕ} (hi : i < n) (hm : m ≤ n) (h : (i + m) % n = b) :
    (b + (n - m)) % n = i := by
  rw [← h, Nat.mod_add_mod, Nat.add_assoc, Nat.add_sub_cancel' hm, Nat.add_mod_right,
    Nat.mod_eq_of_lt hi]

end Positions

namespace Holds

variable {r : SharedRing α} {n b j : ℕ} {q : List α} {x : α}

theorem empty (hb : b < n) (hfull : ∀ i, r.full i = false) : r.Holds n b [] where
  base := hb
  length := Nat.zero_le n
  full j _ := by rw [hfull]; rfl
  frame j x h := by cases h

/-- The consumer's frame. -/
theorem full_base (h : r.Holds n b q) : r.full b = decide (0 < q.length) := by
  have hfull := h.full 0 (Nat.zero_lt_of_lt h.base)
  rwa [position_zero h.base] at hfull

theorem frame_base (h : r.Holds n b (x :: q)) : r.frame b = x := by
  have hframe := h.frame 0 x rfl
  rwa [position_zero h.base] at hframe

theorem eq_cons (h : r.Holds n b q) (hfull : r.full b = true) : ∃ q', q = r.frame b :: q' := by
  rw [h.full_base, decide_eq_true_eq] at hfull
  obtain ⟨x, q', rfl⟩ := List.exists_cons_of_length_pos hfull
  exact ⟨q', by rw [h.frame_base]⟩

/-- A flag bounds the length of the queue. -/
theorem length_le_of_not_full (h : r.Holds n b q) (hj : j < n)
    (hfull : r.full ((b + j) % n) = false) : q.length ≤ j := by
  rw [h.full j hj, decide_eq_false_iff_not] at hfull
  exact Nat.not_lt.mp hfull

theorem length_lt_of_not_full (h : r.Holds n b q)
    (hfull : r.full ((b + q.length) % n) = false) : q.length < n := by
  by_contra hlt
  have hlen : q.length = 0 + n := by
    have hle := h.length
    omega
  have hpos : 0 < n := Nat.zero_lt_of_lt h.base
  have hzero := h.full 0 hpos
  rw [hlen, position_add, hzero, decide_eq_false_iff_not] at hfull
  omega

/-- The producer appends. -/
theorem fill (h : r.Holds n b q) (hlt : q.length < n) :
    (r.fill ((b + q.length) % n) x).Holds n b (q ++ [x]) where
  base := h.base
  length := by
    rw [List.length_append, List.length_singleton]
    exact hlt
  full := by
    intro j hj
    rw [List.length_append, List.length_singleton]
    -- the slot filled is the one behind the queue, and no other position is that slot
    by_cases hjq : j = q.length
    · subst hjq
      rw [decide_eq_true (Nat.lt_succ_self _)]
      exact Function.update_self _ _ _
    · have hne : (b + j) % n ≠ (b + q.length) % n := fun heq => hjq (position_inj hj hlt heq)
      show Function.update r.full _ true _ = _
      rw [Function.update_of_ne hne, h.full j hj, decide_eq_decide]
      omega
  frame := by
    intro j y hy
    show Function.update r.frame _ x _ = y
    by_cases hjq : j < q.length
    · have hne : (b + j) % n ≠ (b + q.length) % n := fun heq =>
        Nat.ne_of_lt hjq (position_inj (hjq.trans hlt) hlt heq)
      rw [List.getElem?_append_left hjq] at hy
      rw [Function.update_of_ne hne, h.frame j y hy]
    · rw [List.getElem?_append_right (Nat.not_lt.mp hjq), List.getElem?_singleton] at hy
      split at hy
      · obtain rfl : j = q.length := by omega
        cases hy
        exact Function.update_self _ _ _
      · cases hy

/-- The consumer takes the first frame. -/
theorem clear (h : r.Holds n b (x :: q)) : (r.clear b).Holds n ((b + 1) % n) q where
  base := Nat.mod_lt _ (Nat.zero_lt_of_lt h.base)
  length := (Nat.le_succ _).trans h.length
  full := by
    intro j hj
    rw [position_succ]
    show Function.update r.full b false _ = _
    by_cases hlast : j + 1 = n
    · -- the frame that has been cleared is the last one of the ring now
      have hbase : (b + (j + 1)) % n = b := by
        rw [hlast, Nat.add_mod_right, Nat.mod_eq_of_lt h.base]
      have hlen := h.length
      rw [List.length_cons] at hlen
      rw [hbase, Function.update_self, eq_comm, decide_eq_false_iff_not]
      omega
    · have hj' : j + 1 < n := by omega
      have hne : (b + (j + 1)) % n ≠ b := by
        intro heq
        rw [← position_zero h.base] at heq
        have hpos : 0 < n := Nat.zero_lt_of_lt h.base
        have := position_inj hj' hpos (by rwa [position_zero h.base] at heq ⊢)
        omega
      rw [Function.update_of_ne hne, h.full (j + 1) hj', List.length_cons, decide_eq_decide]
      omega
  frame := by
    intro j y hy
    rw [position_succ]
    exact h.frame (j + 1) y hy

end Holds

end SharedRing

end MobiPerf.Lib
