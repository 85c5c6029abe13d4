import Mathlib.Data.Finset.Card
import Mathlib.Data.List.Nodup

/-!
# Lib.Interning — names that are numbered as they are first seen

An interner hands out small numbers for values: a value that was seen before
has the number it got then, a new one gets the next number. Its state, as far
as a caller can tell, is the list of the distinct values in the order they came;
the number of a value is its index there. An implementation (a hash table, a
tree) refines it when its numbers are those indices; everything below then
holds of it.
-/

namespace MobiPerf.Lib

variable {α : Type*} [DecidableEq α]

/-- The values known after `a` has been seen. -/
def intern (known : List α) (a : α) : List α :=
  if a ∈ known then known else known ++ [a]

/-- The values known after a list of values has been seen. -/
def internAll (known as : List α) : List α := as.foldl intern known

/-! ## One value -/

theorem intern_of_mem {known : List α} {a : α} (h : a ∈ known) : intern known a = known :=
  if_pos h

theorem intern_of_notMem {known : List α} {a : α} (h : a ∉ known) :
    intern known a = known ++ [a] :=
  if_neg h

theorem prefix_intern (known : List α) (a : α) : known <+: intern known a := by
  unfold intern
  split
  · exact List.prefix_refl known
  · exact List.prefix_append known [a]

theorem mem_intern {known : List α} {a b : α} : b ∈ intern known a ↔ b ∈ known ∨ b = a := by
  unfold intern
  split
  · rename_i h
    constructor
    · exact Or.inl
    · rintro (hb | rfl)
      · exact hb
      · exact h
  · rw [List.mem_append, List.mem_singleton]

theorem nodup_intern {known : List α} (h : known.Nodup) (a : α) : (intern known a).Nodup := by
  unfold intern
  split
  · exact h
  · rename_i hnew
    rw [List.nodup_append]
    refine ⟨h, List.nodup_singleton a, ?_⟩
    intro x hx y hy heq
    rw [List.mem_singleton] at hy
    exact hnew (hy ▸ heq ▸ hx)

/-! ## A sequence of values -/

theorem prefix_internAll (known as : List α) : known <+: internAll known as := by
  induction as generalizing known with
  | nil => exact List.prefix_refl known
  | cons a as ih => exact (prefix_intern known a).trans (ih (intern known a))

theorem mem_internAll {known as : List α} {b : α} :
    b ∈ internAll known as ↔ b ∈ known ∨ b ∈ as := by
  induction as generalizing known with
  | nil => simp [internAll]
  | cons a as ih =>
      have hrest : b ∈ internAll (intern known a) as ↔ b ∈ intern known a ∨ b ∈ as := ih
      show b ∈ internAll (intern known a) as ↔ _
      rw [hrest, mem_intern, List.mem_cons, or_assoc]

theorem nodup_internAll {known : List α} (h : known.Nodup) (as : List α) :
    (internAll known as).Nodup := by
  induction as generalizing known with
  | nil => exact h
  | cons a as ih => exact ih (nodup_intern h a)

/-- There are as many numbers as distinct values. -/
theorem length_internAll (as : List α) : (internAll [] as).length = as.toFinset.card := by
  rw [← List.toFinset_card_of_nodup (nodup_internAll List.nodup_nil as)]
  congr 1
  ext b
  simp [mem_internAll]

omit [DecidableEq α] in
/-- A value keeps its number, whatever is seen later. -/
theorem idxOf_stable [BEq α] [LawfulBEq α] {known later : List α} (hpre : known <+: later)
    {a : α} (h : a ∈ known) : later.idxOf a = known.idxOf a := by
  rcases hpre with ⟨rest, rfl⟩
  exact List.idxOf_append_of_mem h

end MobiPerf.Lib
