import Mathlib.Data.List.Basic

/-!
# Lib.Firsts — of each key, the first pair

Pairs come in one after the other, and a pair is kept when its key is new.

* `foldl_keepFirst`: what is kept in the end is the first pair of each key, in the
  order they came;
* `firsts_insert`: a further pair with a key that was there before changes nothing.
-/

namespace MobiPerf.Lib

universe u v

variable {κ : Type u} {ν : Type v} [DecidableEq κ]

def keepFirst (kept : List (κ × ν)) (p : κ × ν) : List (κ × ν) :=
  if p.1 ∈ kept.map Prod.fst then kept else kept ++ [p]

/-- The first pair of each key. -/
def firsts : List (κ × ν) → List (κ × ν)
  | [] => []
  | p :: l => p :: (firsts l).filter fun q => q.1 ≠ p.1

variable {kept l : List (κ × ν)} {p : κ × ν}

theorem keepFirst_of_mem (h : p.1 ∈ kept.map Prod.fst) : keepFirst kept p = kept := if_pos h

theorem keepFirst_of_notMem (h : p.1 ∉ kept.map Prod.fst) : keepFirst kept p = kept ++ [p] :=
  if_neg h

theorem foldl_keepFirst_append (kept l : List (κ × ν)) : l.foldl keepFirst kept =
    kept ++ (firsts l).filter fun q => q.1 ∉ kept.map Prod.fst := by
  induction l generalizing kept with
  | nil => exact (List.append_nil _).symm
  | cons p l ih =>
      rw [List.foldl_cons, ih, firsts]
      by_cases hp : p.1 ∈ kept.map Prod.fst
      · have hout : ¬ decide (p.1 ∉ kept.map Prod.fst) = true := by simpa using hp
        rw [keepFirst_of_mem hp, List.filter_cons, if_neg hout, List.filter_filter]
        refine congrArg _ (List.filter_congr fun q _ => ?_)
        rw [Bool.eq_iff_iff]
        simp only [Bool.and_eq_true, decide_eq_true_eq]
        refine iff_self_and.mpr fun hq heq => hq ?_
        rw [heq]
        exact hp
      · have hin : decide (p.1 ∉ kept.map Prod.fst) = true := decide_eq_true hp
        rw [keepFirst_of_notMem hp, List.filter_cons, if_pos hin, List.append_assoc,
          List.filter_filter]
        refine congrArg _ (congrArg _ (List.filter_congr fun q _ => ?_))
        rw [Bool.eq_iff_iff]
        simp only [Bool.and_eq_true, decide_eq_true_eq, List.map_append, List.map_singleton,
          List.mem_append, List.mem_singleton, not_or]

theorem foldl_keepFirst (l : List (κ × ν)) : l.foldl keepFirst [] = firsts l := by
  rw [foldl_keepFirst_append, List.nil_append, List.filter_eq_self]
  simp

theorem mem_keys_keepFirst {k : κ} (h : k ∈ kept.map Prod.fst) (p : κ × ν) :
    k ∈ (keepFirst kept p).map Prod.fst := by
  unfold keepFirst
  split
  · exact h
  · rw [List.map_append]
    exact List.mem_append_left _ h

/-- Every key that came in is kept. -/
theorem mem_keys_foldl {k : κ} (h : k ∈ kept.map Prod.fst ∨ k ∈ l.map Prod.fst) :
    k ∈ (l.foldl keepFirst kept).map Prod.fst := by
  induction l generalizing kept with
  | nil => exact h.resolve_right List.not_mem_nil
  | cons p l ih =>
      rw [List.foldl_cons]
      rcases h with h | h
      · exact ih (Or.inl (mem_keys_keepFirst h p))
      · rcases List.mem_cons.mp h with rfl | h
        · refine ih (Or.inl ?_)
          by_cases hp : p.1 ∈ kept.map Prod.fst
          · rw [keepFirst_of_mem hp]
            exact hp
          · rw [keepFirst_of_notMem hp, List.map_append]
            exact List.mem_append_right _ List.mem_cons_self
        · exact ih (Or.inr h)

theorem firsts_insert (l' : List (κ × ν)) (h : p.1 ∈ l.map Prod.fst) :
    firsts (l ++ p :: l') = firsts (l ++ l') := by
  rw [← foldl_keepFirst, ← foldl_keepFirst, List.foldl_append, List.foldl_append, List.foldl_cons,
    keepFirst_of_mem (mem_keys_foldl (Or.inr h))]

end MobiPerf.Lib
