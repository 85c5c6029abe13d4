import Mathlib.Algebra.Order.BigOperators.Group.List
import Mathlib.Algebra.Order.Field.Basic
import Mathlib.Tactic.Linarith
import Mathlib.Tactic.Ring

/-!
# Lib.Mean — the mean of a list

The mean of some numbers lies between the bounds of them, and it does not grow
when numbers that are not below it are left out.
-/

namespace MobiPerf.Lib

universe u

variable {K : Type u} [Field K]

def mean (l : List K) : K := l.sum / l.length

theorem sum_filter_add_sum_filter_not (p : K → Bool) (l : List K) :
    (l.filter p).sum + (l.filter fun x => !p x).sum = l.sum := by
  induction l with
  | nil => simp
  | cons x l ih =>
      cases hx : p x with
      | true =>
          simp only [List.filter_cons, hx, if_true, Bool.not_true, Bool.false_eq_true, if_false,
            List.sum_cons]
          rw [add_assoc, ih]
      | false =>
          simp only [List.filter_cons, hx, if_true, Bool.not_false, Bool.false_eq_true, if_false,
            List.sum_cons]
          rw [add_left_comm, ih]

variable [LinearOrder K] [IsStrictOrderedRing K] {l : List K} {a : K}

theorem cast_length_pos (hne : l ≠ []) : (0 : K) < l.length := by
  exact_mod_cast List.length_pos_iff.mpr hne

theorem length_mul_mean (hne : l ≠ []) : l.length * mean l = l.sum :=
  mul_div_cancel₀ _ (cast_length_pos hne).ne'

theorem le_mean (hne : l ≠ []) (h : ∀ x ∈ l, a ≤ x) : a ≤ mean l := by
  have hsum := List.card_nsmul_le_sum l a h
  rw [nsmul_eq_mul] at hsum
  rw [mean, le_div_iff₀ (cast_length_pos hne), mul_comm]
  exact hsum

theorem mean_le (hne : l ≠ []) (h : ∀ x ∈ l, x ≤ a) : mean l ≤ a := by
  have hsum := List.sum_le_card_nsmul l a h
  rw [nsmul_eq_mul] at hsum
  rw [mean, div_le_iff₀ (cast_length_pos hne), mul_comm]
  exact hsum

/-- Numbers that are left out weigh the mean at least, each of them. -/
theorem mean_filter_le {p : K → Bool} (hne : l.filter p ≠ [])
    (h : ∀ x ∈ l, p x = false → mean l ≤ x) : mean (l.filter p) ≤ mean l := by
  have hl : l ≠ [] := by
    rintro rfl
    exact hne rfl
  have hout := List.card_nsmul_le_sum (l.filter fun x => !p x) (mean l) fun x hx => by
    obtain ⟨hmem, hp⟩ := List.mem_filter.mp hx
    exact h x hmem (by simpa using hp)
  have hlength : ((l.filter p).length : K) + (l.filter fun x => !p x).length = l.length := by
    have hcount := List.length_eq_length_filter_add (l := l) p
    exact_mod_cast hcount.symm
  have hsum := sum_filter_add_sum_filter_not p l
  have htotal := length_mul_mean hl
  rw [nsmul_eq_mul] at hout
  rw [mean, div_le_iff₀ (cast_length_pos hne)]
  rw [← hlength] at htotal
  linarith

end MobiPerf.Lib
