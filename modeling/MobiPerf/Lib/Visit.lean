import Mathlib.Algebra.BigOperators.Group.Finset.Basic
import Mathlib.Data.Finset.Sort
import Mathlib.Logic.Relation

/-!
# Lib.Visit — what a depth-first search marks

A search marks a node when it comes to it and goes on with its successors, and
does not go past a marked node. Where edges lead up in an order, the nodes that are
not finished yet lie below the one the search is at, so it is enough that the
marked nodes above are closed under edges (`ClosedAbove`), and the search marks
what is reachable, in whatever order it takes the successors (`Visits`).
-/

namespace MobiPerf.Lib

variable {ι : Type*} (edge : ι → ι → Prop)

def Reach : ι → ι → Prop := Relation.ReflTransGen edge

/-- The marked nodes from `b` on have marked successors. -/
def ClosedAbove [Preorder ι] (M : Finset ι) (b : ι) : Prop := ∀ i ∈ M, b ≤ i → ∀ j, edge i j → j ∈ M

/-- `M'` has in addition what is reachable from `ps`. -/
def Visits (ps : List ι) (M M' : Finset ι) : Prop :=
  ∀ i, i ∈ M' ↔ i ∈ M ∨ ∃ p ∈ ps, Reach edge p i

variable {edge} {M M' M'' : Finset ι} {p b : ι} {ps qs : List ι}

namespace Visits

theorem nil (M : Finset ι) : Visits edge [] M M := fun i => by simp

theorem subset (h : Visits edge ps M M') : M ⊆ M' := fun i hi => (h i).mpr (.inl hi)

theorem unique (h : Visits edge ps M M') (h' : Visits edge ps M M'') : M' = M'' := by
  ext i
  rw [h i, h' i]

theorem mem (h : Visits edge ps M M') (hp : p ∈ ps) : p ∈ M' :=
  (h p).mpr (.inr ⟨p, hp, Relation.ReflTransGen.refl⟩)

/-- One search after another. -/
theorem append (h : Visits edge ps M M') (h' : Visits edge qs M' M'') :
    Visits edge (ps ++ qs) M M'' := by
  intro i
  rw [h' i, h i]
  simp only [List.mem_append]
  constructor
  · rintro ((hM | ⟨p, hp, hr⟩) | ⟨p, hp, hr⟩)
    · exact .inl hM
    · exact .inr ⟨p, .inl hp, hr⟩
    · exact .inr ⟨p, .inr hp, hr⟩
  · rintro (hM | ⟨p, hp | hp, hr⟩)
    · exact .inl (.inl hM)
    · exact .inl (.inr ⟨p, hp, hr⟩)
    · exact .inr ⟨p, hp, hr⟩

/-- A node is marked, and its successors are searched. -/
theorem node [DecidableEq ι] (hsucc : ∀ j, edge p j ↔ j ∈ ps) (h : Visits edge ps (insert p M) M') :
    Visits edge [p] M M' := by
  intro i
  rw [h i, Finset.mem_insert]
  constructor
  · rintro ((rfl | hM) | ⟨q, hq, hr⟩)
    · exact .inr ⟨i, List.mem_singleton_self i, Relation.ReflTransGen.refl⟩
    · exact .inl hM
    · exact .inr ⟨p, List.mem_singleton_self p, Relation.ReflTransGen.head ((hsucc q).mpr hq) hr⟩
  · rintro (hM | ⟨q, hq, hr⟩)
    · exact .inl (.inr hM)
    · rw [List.mem_singleton.mp hq] at hr
      rcases Relation.ReflTransGen.cases_head hr with rfl | ⟨j, hj, hr⟩
      · exact .inl (.inl rfl)
      · exact .inr ⟨j, (hsucc j).mp hj, hr⟩

/-- A search of finitely many nodes ends. -/
theorem exists_of_finite (S : Finset ι) (hps : ∀ p ∈ ps, p ∈ S)
    (hS : ∀ i ∈ S, ∀ j, edge i j → j ∈ S) (M : Finset ι) : ∃ M', Visits edge ps M M' := by
  classical
  have hreach : ∀ p ∈ ps, ∀ i, Reach edge p i → i ∈ S := by
    intro p hp i hr
    induction hr with
    | refl => exact hps p hp
    | tail _ he ih => exact hS _ ih _ he
  refine ⟨M ∪ S.filter fun i => ∃ p ∈ ps, Reach edge p i, fun i => ?_⟩
  rw [Finset.mem_union, Finset.mem_filter]
  constructor
  · rintro (hM | ⟨-, hr⟩)
    · exact .inl hM
    · exact .inr hr
  · rintro (hM | ⟨p, hp, hr⟩)
    · exact .inl hM
    · exact .inr ⟨hreach p hp i hr, p, hp, hr⟩

end Visits

section Order

variable [Preorder ι]

theorem Reach.le (hup : ∀ i j, edge i j → i < j) {i : ι} (h : Reach edge p i) : p ≤ i := by
  induction h with
  | refl => exact le_rfl
  | tail _ he ih => exact ih.trans (hup _ _ he).le

/-- A marked node is not searched again. -/
theorem Visits.marked (hup : ∀ i j, edge i j → i < j) (hclosed : ClosedAbove edge M p)
    (hp : p ∈ M) :
    Visits edge [p] M M := by
  have hreach : ∀ i, Reach edge p i → i ∈ M := by
    intro i hr
    induction hr with
    | refl => exact hp
    | tail hr he ih => exact hclosed _ ih (Reach.le hup hr) _ he
  intro i
  constructor
  · exact .inl
  · rintro (hM | ⟨q, hq, hr⟩)
    · exact hM
    · rw [List.mem_singleton.mp hq] at hr
      exact hreach i hr

/-- A search keeps the marked nodes closed. -/
theorem Visits.closed (h : Visits edge ps M M') (hclosed : ClosedAbove edge M b) :
    ClosedAbove edge M' b := by
  intro i hi hb j hj
  rcases (h i).mp hi with hM | ⟨p, hp, hr⟩
  · exact h.subset (hclosed i hM hb j hj)
  · exact (h j).mpr (.inr ⟨p, hp, Relation.ReflTransGen.tail hr hj⟩)

theorem ClosedAbove.insert [DecidableEq ι] (h : ClosedAbove edge M p) (hlt : p < b) :
    ClosedAbove edge (insert p M) b := by
  intro i hi hb j hj
  rcases Finset.mem_insert.mp hi with rfl | hM
  · exact absurd hb (not_le_of_gt hlt)
  · exact Finset.mem_insert_of_mem (h i hM (hlt.le.trans hb) j hj)

end Order

section Count

variable [DecidableEq ι]

/-- The nodes of two searches are counted one after the other. -/
theorem sum_sdiff_trans (w : ι → ℕ) (h : M ⊆ M') (h' : M' ⊆ M'') :
    ∑ i ∈ M'' \ M, w i = ∑ i ∈ M'' \ M', w i + ∑ i ∈ M' \ M, w i := by
  rw [← Finset.sum_union]
  · congr 1
    ext i
    simp only [Finset.mem_sdiff, Finset.mem_union]
    constructor
    · rintro ⟨h1, h2⟩
      by_cases hi : i ∈ M'
      · exact .inr ⟨hi, h2⟩
      · exact .inl ⟨h1, hi⟩
    · rintro (⟨h1, h2⟩ | ⟨h1, h2⟩)
      · exact ⟨h1, fun hM => h2 (h hM)⟩
      · exact ⟨h' h1, h2⟩
  · rw [Finset.disjoint_left]
    rintro i h1 h2
    exact (Finset.mem_sdiff.mp h1).2 (Finset.mem_sdiff.mp h2).1

theorem sum_sdiff_insert (w : ι → ℕ) (hp : p ∉ M) (h : insert p M ⊆ M') :
    ∑ i ∈ M' \ M, w i = ∑ i ∈ M' \ insert p M, w i + w p := by
  rw [sum_sdiff_trans w (Finset.subset_insert p M) h]
  congr 1
  have hone : insert p M \ M = {p} := by
    ext i
    simp only [Finset.mem_sdiff, Finset.mem_insert, Finset.mem_singleton]
    constructor
    · rintro ⟨rfl | hM, hi⟩
      · rfl
      · exact absurd hM hi
    · rintro rfl
      exact ⟨.inl rfl, hp⟩
  rw [hone, Finset.sum_singleton]

end Count

end MobiPerf.Lib
