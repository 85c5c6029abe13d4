import Mathlib.Data.List.Destutter
import Mathlib.Data.List.ReduceOption

/-!
# Lib.Changes — a recorder that writes what is new

Events come in, some of them with a value. A recorder that holds the last value and
writes one when it differs writes the values without consecutive repetitions.

* `RecordsChanges.run`: so it is over any run, from one call of the recorder.
-/

namespace MobiPerf.Lib

universe u

variable {σ ε α β : Type u} [DecidableEq α]

/-- In a state that holds `t`, a step on an event with the value `x` holds `x` after,
and has written it if it is not `t`; one without a value does nothing. -/
structure RecordsChanges (step : σ → ε → σ) (value : ε → Option α) (written : σ → List β)
    (render : α → β) (Holds : σ → α → Prop) (e : ε) : Prop where
  skip : ∀ {s t}, Holds s t → value e = none → step s e = s
  holds : ∀ {s t x}, Holds s t → value e = some x → Holds (step s e) x
  writes : ∀ {s t x}, Holds s t → value e = some x →
    written (step s e) = written s ++ if t ≠ x then [render x] else []

/-- The element in front stays there. -/
theorem destutter'_eq_cons_tail (a : α) (l : List α) :
    l.destutter' (· ≠ ·) a = a :: (l.destutter' (· ≠ ·) a).tail := by
  induction l with
  | nil => rfl
  | cons b l ih =>
      by_cases h : a ≠ b
      · rw [List.destutter'_cons_pos _ h, List.tail_cons]
      · rw [List.destutter'_cons_neg _ h]
        exact ih

theorem RecordsChanges.run {step : σ → ε → σ} {value : ε → Option α} {written : σ → List β}
    {render : α → β} {Holds : σ → α → Prop} {events : List ε}
    (h : ∀ e ∈ events, RecordsChanges step value written render Holds e) {s : σ} {t : α}
    (hs : Holds s t) :
    written (events.foldl step s) = written s ++
      ((events.map value).reduceOption.destutter' (· ≠ ·) t).tail.map render := by
  induction events generalizing s t with
  | nil => exact (List.append_nil _).symm
  | cons e events ih =>
      have he := h e List.mem_cons_self
      have hrest := fun e' hmem => h e' (List.mem_cons_of_mem e hmem)
      rw [List.foldl_cons, List.map_cons]
      cases hvalue : value e with
      | none => rw [he.skip hs hvalue, ih hrest hs, List.reduceOption_cons_of_none]
      | some x =>
          rw [ih hrest (he.holds hs hvalue), he.writes hs hvalue, List.reduceOption_cons_of_some,
            List.append_assoc]
          by_cases htx : t = x
          · rw [List.destutter'_cons_neg _ (not_not.mpr htx), if_neg (not_not.mpr htx), htx,
              List.nil_append]
          · rw [List.destutter'_cons_pos _ htx, if_pos htx, List.tail_cons,
              destutter'_eq_cons_tail x, List.map_cons, List.tail_cons, List.singleton_append]

end MobiPerf.Lib
