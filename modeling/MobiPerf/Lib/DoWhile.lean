import Mathlib.Data.List.Basic

/-!
# Lib.DoWhile — loops that test behind each input

A loop takes one input after the other, makes a step with each, and then tests
whether to stop. It either stops behind one input (`stopper`), having gone on
behind those in front of it (`continued`), or it runs out of inputs. What it did
is told by places: `GoesOn` at a place says that no test so far has stopped the
loop, and the rest follows from it.
-/

namespace MobiPerf.Lib

universe u v

variable {α : Type u} {σ : Type v} (step : σ → α → σ) (stop : σ → α → Bool)

/-- The inputs behind which the loop goes on. -/
def continued : σ → List α → List α
  | _, [] => []
  | s, a :: l => if stop (step s a) a then [] else a :: continued (step s a) l

/-- The input behind which the loop stops. -/
def stopper : σ → List α → Option α
  | _, [] => none
  | s, a :: l => if stop (step s a) a then some a else stopper (step s a) l

/-- The inputs the loop takes. -/
def taken (s : σ) (l : List α) : List α := continued step stop s l ++ (stopper step stop s l).toList

/-- The state behind the first `k` inputs. -/
def stateAfter (s : σ) (l : List α) (k : ℕ) : σ := (l.take k).foldl step s

/-- The loop goes on behind each of the first `k` inputs. -/
def GoesOn (s : σ) (l : List α) (k : ℕ) : Prop :=
  ∀ j < k, ∀ a, l[j]? = some a → stop (stateAfter step s l (j + 1)) a = false

variable {step stop} {s : σ} {l : List α} {a : α} {k : ℕ}

@[simp] theorem stateAfter_zero : stateAfter step s l 0 = s := rfl

theorem stateAfter_succ_cons :
    stateAfter step s (a :: l) (k + 1) = stateAfter step (step s a) l k :=
  rfl

theorem stateAfter_succ (hk : l[k]? = some a) :
    stateAfter step s l (k + 1) = step (stateAfter step s l k) a := by
  unfold stateAfter
  rw [List.take_add_one, hk, List.foldl_append]
  rfl

theorem goesOn_zero : GoesOn step stop s l 0 := fun _ hj => absurd hj (Nat.not_lt_zero _)

theorem goesOn_cons : GoesOn step stop s (a :: l) (k + 1) ↔
    stop (step s a) a = false ∧ GoesOn step stop (step s a) l k := by
  constructor
  · intro h
    exact ⟨h 0 (Nat.succ_pos k) a rfl, fun j hj b hb => h (j + 1) (Nat.succ_lt_succ hj) b hb⟩
  · rintro ⟨hfirst, hrest⟩ j hj b hb
    cases j with
    | zero =>
        cases hb
        exact hfirst
    | succ j => exact hrest j (Nat.lt_of_succ_lt_succ hj) b hb

theorem GoesOn.mono {j : ℕ} (h : GoesOn step stop s l k) (hjk : j ≤ k) : GoesOn step stop s l j :=
  fun i hi => h i (Nat.lt_of_lt_of_le hi hjk)

/-- Behind the input that stops it the loop does not go on. -/
theorem not_goesOn_of_stops (hk : l[k]? = some a)
    (hstop : stop (stateAfter step s l (k + 1)) a) : ¬ GoesOn step stop s l (k + 1) := by
  intro hgoes
  have hgoesOn := hgoes k (Nat.lt_succ_self k) a hk
  rw [hgoesOn] at hstop
  cases hstop

/-- The place of an input tells whether the loop goes on behind it. -/
theorem getElem?_continued : (continued step stop s l)[k]? = some a ↔
    l[k]? = some a ∧ GoesOn step stop s l (k + 1) := by
  induction l generalizing s k with
  | nil => simp [continued]
  | cons b l ih =>
      unfold continued
      by_cases hstop : stop (step s b) b
      · rw [if_pos hstop]
        refine iff_of_false nofun ?_
        rintro ⟨-, hgoes⟩
        rw [(goesOn_cons.mp hgoes).1] at hstop
        cases hstop
      · rw [if_neg hstop, goesOn_cons]
        rw [Bool.not_eq_true] at hstop
        cases k with
        | zero => exact ⟨fun h => ⟨h, hstop, goesOn_zero⟩, fun h => h.1⟩
        | succ k =>
            rw [List.getElem?_cons_succ, List.getElem?_cons_succ, ih]
            exact and_congr_right fun _ => (and_iff_right hstop).symm

theorem mem_continued : a ∈ continued step stop s l ↔
    ∃ k, l[k]? = some a ∧ GoesOn step stop s l (k + 1) := by
  rw [List.mem_iff_getElem?]
  exact exists_congr fun k => getElem?_continued

/-- The loop stops behind the first input whose test says so. -/
theorem stopper_eq_some_iff : stopper step stop s l = some a ↔
    ∃ k, l[k]? = some a ∧ stop (stateAfter step s l (k + 1)) a ∧ GoesOn step stop s l k := by
  induction l generalizing s with
  | nil => simp [stopper]
  | cons b l ih =>
      unfold stopper
      by_cases hstop : stop (step s b) b
      · rw [if_pos hstop]
        constructor
        · intro h
          cases h
          exact ⟨0, rfl, hstop, goesOn_zero⟩
        · rintro ⟨k, hk, -, hgoes⟩
          cases k with
          | zero => exact hk
          | succ k =>
              rw [(goesOn_cons.mp hgoes).1] at hstop
              cases hstop
      · rw [if_neg hstop, ih]
        rw [Bool.not_eq_true] at hstop
        constructor
        · rintro ⟨k, hk, hlast, hgoes⟩
          exact ⟨k + 1, hk, hlast, goesOn_cons.mpr ⟨hstop, hgoes⟩⟩
        · rintro ⟨k, hk, hlast, hgoes⟩
          cases k with
          | zero =>
              cases hk
              exact absurd hlast (Bool.eq_false_iff.mp hstop)
          | succ k => exact ⟨k, hk, hlast, (goesOn_cons.mp hgoes).2⟩

/-- A loop that never stops takes every input. -/
theorem stopper_eq_none_iff : stopper step stop s l = none ↔ GoesOn step stop s l l.length := by
  induction l generalizing s with
  | nil => exact iff_of_true rfl goesOn_zero
  | cons b l ih =>
      unfold stopper
      rw [List.length_cons, goesOn_cons]
      by_cases hstop : stop (step s b) b
      · simp [hstop]
      · rw [if_neg hstop, ih]
        rw [Bool.not_eq_true] at hstop
        exact (and_iff_right hstop).symm

/-- A loop goes through its inputs, or stops behind one of them. -/
theorem goesOn_or_stops (step : σ → α → σ) (stop : σ → α → Bool) (s : σ) (l : List α) :
    GoesOn step stop s l l.length ∨ ∃ k a, l[k]? = some a ∧
      stop (stateAfter step s l (k + 1)) a = true ∧ GoesOn step stop s l k := by
  cases hstopper : stopper step stop s l with
  | none => exact Or.inl (stopper_eq_none_iff.mp hstopper)
  | some a =>
      obtain ⟨k, hk⟩ := stopper_eq_some_iff.mp hstopper
      exact Or.inr ⟨k, a, hk⟩

/-- A loop that stops has gone on behind the inputs in front. -/
theorem continued_eq_take (hk : l[k]? = some a)
    (hstop : stop (stateAfter step s l (k + 1)) a) (hgoes : GoesOn step stop s l k) :
    continued step stop s l = l.take k := by
  refine List.ext_getElem? fun j => Option.ext fun b => ?_
  rw [getElem?_continued, List.getElem?_take]
  by_cases hj : j < k
  · rw [if_pos hj]
    exact and_iff_left (hgoes.mono hj)
  · rw [if_neg hj]
    refine iff_of_false ?_ nofun
    rintro ⟨-, hlate⟩
    exact not_goesOn_of_stops hk hstop (hlate.mono (Nat.succ_le_succ (Nat.le_of_not_lt hj)))

theorem taken_of_stops (hk : l[k]? = some a)
    (hstop : stop (stateAfter step s l (k + 1)) a) (hgoes : GoesOn step stop s l k) :
    taken step stop s l = l.take (k + 1) := by
  unfold taken
  rw [continued_eq_take hk hstop hgoes, stopper_eq_some_iff.mpr ⟨k, hk, hstop, hgoes⟩]
  rw [List.take_add_one, hk]

theorem taken_of_goesOn (h : GoesOn step stop s l l.length) : taken step stop s l = l := by
  unfold taken
  rw [stopper_eq_none_iff.mpr h, Option.toList_none, List.append_nil]
  refine List.ext_getElem? fun j => Option.ext fun b => ?_
  rw [getElem?_continued]
  refine and_iff_left_of_imp fun hj => h.mono ?_
  exact (List.getElem?_eq_some_iff.mp hj).1

/-- The inputs taken are the first ones. -/
theorem taken_eq_take (step : σ → α → σ) (stop : σ → α → Bool) (s : σ) (l : List α) :
    taken step stop s l = l.take (taken step stop s l).length := by
  rcases goesOn_or_stops step stop s l with hgoes | ⟨k, a, hk, hstop, hgoes⟩
  · rw [taken_of_goesOn hgoes, List.take_length]
  · rw [taken_of_stops hk hstop hgoes, List.length_take, List.take_eq_take_iff]
    simp

theorem length_taken_le : (taken step stop s l).length ≤ l.length := by
  rw [taken_eq_take]
  exact List.length_take_le' _ _

/-- In front of an input taken the loop has gone on. -/
theorem goesOn_of_lt_taken (h : k < (taken step stop s l).length) : GoesOn step stop s l k := by
  rcases goesOn_or_stops step stop s l with hgoes | ⟨m, a, hm, hstop, hgoes⟩
  · rw [taken_of_goesOn hgoes] at h
    exact hgoes.mono (Nat.le_of_lt h)
  · rw [taken_of_stops hm hstop hgoes, List.length_take] at h
    exact hgoes.mono (by omega)

end MobiPerf.Lib
