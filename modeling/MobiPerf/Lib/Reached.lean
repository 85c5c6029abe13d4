import Mathlib.Data.List.Nodup

/-!
# Lib.Reached — a loop that may stop

A loop over a list that ends early, at an element that makes it stop, reaches the
elements up to that one and no others. What it does is then a fact about the list of
the elements it reached, and that list is the whole one when nothing stops it.
-/

namespace MobiPerf.Lib

variable {α : Type*}

/-- The elements up to the first one that stops the loop, that one included. -/
def reached (stops : α → Bool) : List α → List α
  | [] => []
  | a :: as => if stops a then [a] else a :: reached stops as

variable {stops : α → Bool} {a : α} {as : List α}

@[simp] theorem reached_nil : reached stops [] = [] := rfl

theorem reached_cons_of_stops (h : stops a = true) : reached stops (a :: as) = [a] := by
  simp [reached, h]

theorem reached_cons_of_not (h : stops a = false) :
    reached stops (a :: as) = a :: reached stops as := by
  simp [reached, h]

theorem reached_sublist (stops : α → Bool) (as : List α) : (reached stops as).Sublist as := by
  induction as with
  | nil => exact List.Sublist.refl _
  | cons a as ih =>
      cases h : stops a with
      | true =>
          rw [reached_cons_of_stops h]
          exact List.singleton_sublist.mpr List.mem_cons_self
      | false =>
          rw [reached_cons_of_not h]
          exact ih.cons_cons a

theorem mem_of_mem_reached (h : a ∈ reached stops as) : a ∈ as :=
  (reached_sublist stops as).subset h

theorem nodup_reached (h : as.Nodup) : (reached stops as).Nodup :=
  h.sublist (reached_sublist stops as)

/-- Nothing stops the loop: it reaches everything. -/
theorem reached_eq_self (h : ∀ a ∈ as, stops a = false) : reached stops as = as := by
  induction as with
  | nil => rfl
  | cons a as ih =>
      rw [reached_cons_of_not (h a List.mem_cons_self),
        ih fun b hb => h b (List.mem_cons_of_mem a hb)]

/-- What is reached before the first element that stops the loop. -/
theorem reached_append_cons {before after : List α} (h : ∀ b ∈ before, stops b = false)
    (ha : stops a = true) : reached stops (before ++ a :: after) = before ++ [a] := by
  induction before with
  | nil => exact reached_cons_of_stops ha
  | cons b before ih =>
      rw [List.cons_append, reached_cons_of_not (h b List.mem_cons_self),
        ih fun c hc => h c (List.mem_cons_of_mem b hc), List.cons_append]

/-- The loop does not come past an element that stops it. -/
theorem reached_subset (before after : List α) (ha : stops a = true) :
    reached stops (before ++ a :: after) ⊆ before ++ [a] := by
  induction before with
  | nil =>
      rw [List.nil_append, reached_cons_of_stops ha]
      exact List.Subset.refl _
  | cons b before ih =>
      rw [List.cons_append, List.cons_append]
      cases hb : stops b with
      | true =>
          rw [reached_cons_of_stops hb]
          intro c hc
          rw [List.mem_singleton.mp hc]
          exact List.mem_cons_self
      | false =>
          rw [reached_cons_of_not hb]
          exact List.cons_subset_cons b ih

/-- The first element that stops the loop is the last it reaches. -/
theorem exists_first (h : ∃ a ∈ as, stops a = true) :
    ∃ before a after, as = before ++ a :: after ∧ stops a = true ∧
      reached stops as = before ++ [a] := by
  obtain ⟨a, ha⟩ := Option.isSome_iff_exists.mp (List.find?_isSome.mpr h)
  obtain ⟨hstops, before, after, heq, hbefore⟩ := List.find?_eq_some_iff_append.mp ha
  refine ⟨before, a, after, heq, hstops, ?_⟩
  rw [heq]
  refine reached_append_cons ?_ hstops
  intro b hb
  simpa using hbefore b hb

/-- An element that stops the loop is met if there is one at all. -/
theorem exists_reached_iff :
    (∃ a ∈ reached stops as, stops a = true) ↔ ∃ a ∈ as, stops a = true := by
  constructor
  · rintro ⟨a, ha, hstops⟩
    exact ⟨a, mem_of_mem_reached ha, hstops⟩
  · intro h
    induction as with
    | nil =>
        obtain ⟨a, ha, -⟩ := h
        cases ha
    | cons b as ih =>
        cases hb : stops b with
        | true =>
            rw [reached_cons_of_stops hb]
            exact ⟨b, List.mem_singleton_self b, hb⟩
        | false =>
            rw [reached_cons_of_not hb]
            obtain ⟨a, ha, hstops⟩ := h
            rcases List.mem_cons.mp ha with rfl | ha
            · rw [hb] at hstops
              cases hstops
            · obtain ⟨c, hc, hcstops⟩ := ih ⟨a, ha, hstops⟩
              exact ⟨c, List.mem_cons_of_mem b hc, hcstops⟩

/-- Whether an element stops the loop matters on the list only. -/
theorem reached_congr {stops' : α → Bool} (h : ∀ a ∈ as, stops a = stops' a) :
    reached stops as = reached stops' as := by
  induction as with
  | nil => rfl
  | cons a as ih =>
      unfold reached
      rw [h a List.mem_cons_self, ih fun b hb => h b (List.mem_cons_of_mem a hb)]

end MobiPerf.Lib
