import Mathlib.Data.List.Chain

/-!
# Lib.Metering — items that come in, cut into spans of time

Items are gathered while time goes on. A span is over with the first item that
comes a period or more behind its start, and the next one starts behind that
item. `closes` is the clock when an item has been counted, `reopens` the clock
when the span it ends has been dealt with.

* `exists_rest`: the spans follow each other without a gap;
* `chained`: each starts where the one before it was left, and stops with its
  last item;
* `lasts`: none is shorter than the period;
* `within`: where the clock does not go back, every item is counted within its
  span;
* `mem_cut`: and every span lies behind the start.
-/

namespace MobiPerf.Lib

universe u

/-- A span of time, with the items counted in it. -/
structure Span (α : Type u) where
  start : ℤ
  items : List α
  stop : ℤ

namespace Span

variable {α : Type u} (closes reopens : α → ℤ) (period : ℤ)

/-- The spans that are over, of items that come in behind those of `current`,
which are counted since `start`. -/
def cut : ℤ → List α → List α → List (Span α)
  | _, _, [] => []
  | start, current, a :: l =>
    if closes a - start < period then cut start (current ++ [a]) l
    else ⟨start, current ++ [a], closes a⟩ :: cut (reopens a) [] l

/-- The first span starts at `start`, each other one where the last item of the
one before left the clock, and each stops with its last item. -/
def Chained : ℤ → List (Span α) → Prop
  | _, [] => True
  | start, I :: spans => I.start = start ∧
      ∃ last, I.items.getLast? = some last ∧ I.stop = closes last ∧ Chained (reopens last) spans

/-- The clock at which each item is counted lies within the span. -/
def Within (I : Span α) : Prop := ∀ a ∈ I.items, I.start ≤ closes a ∧ closes a ≤ I.stop

variable {closes reopens period} {start : ℤ} {current l : List α}

theorem exists_rest : ∃ rest,
    current ++ l = (cut closes reopens period start current l).flatMap items ++ rest := by
  induction l generalizing start current with
  | nil => exact ⟨current, by simp [cut]⟩
  | cons a l ih =>
      unfold cut
      split
      · obtain ⟨rest, hrest⟩ := @ih start (current ++ [a])
        exact ⟨rest, by rw [← hrest]; simp⟩
      · obtain ⟨rest, hrest⟩ := @ih (reopens a) []
        refine ⟨rest, ?_⟩
        rw [List.flatMap_cons, List.append_assoc, ← hrest]
        simp

theorem chained : Chained closes reopens start (cut closes reopens period start current l) := by
  induction l generalizing start current with
  | nil => exact trivial
  | cons a l ih =>
      unfold cut
      split
      · exact ih
      · exact ⟨rfl, a, List.getLast?_concat, rfl, ih⟩

theorem lasts : ∀ I ∈ cut closes reopens period start current l, period ≤ I.stop - I.start := by
  induction l generalizing start current with
  | nil => simp [cut]
  | cons a l ih =>
      unfold cut
      split
      · exact ih
      · rename_i hover
        exact List.forall_mem_cons.mpr ⟨Int.not_lt.mp hover, ih⟩

/-- The clock of some items does not go back, and not behind `start`. -/
def Steady (closes reopens : α → ℤ) (start : ℤ) (l : List α) : Prop :=
  (start :: l.flatMap fun a => [closes a, reopens a]).Pairwise (· ≤ ·)

theorem Steady.cons {a : α} (h : Steady closes reopens start (a :: l)) :
    (start ≤ closes a ∧ closes a ≤ reopens a ∧ ∀ b ∈ l, closes a ≤ closes b) ∧
      Steady closes reopens start l ∧ Steady closes reopens (reopens a) l := by
  unfold Steady at h
  rw [List.flatMap_cons] at h
  obtain ⟨hstart, hrest⟩ := List.pairwise_cons.mp h
  obtain ⟨hcloses, hreopens⟩ := List.pairwise_cons.mp hrest
  have hlater : ∀ b ∈ l, closes a ≤ closes b := fun b hb =>
    hcloses _ (List.mem_cons_of_mem _ (List.mem_flatMap.mpr ⟨b, hb, List.mem_cons_self⟩))
  refine ⟨⟨hstart _ List.mem_cons_self, hcloses _ List.mem_cons_self, hlater⟩, ?_, hreopens⟩
  exact h.sublist (List.Sublist.cons_cons _ (List.sublist_append_right _ _))

theorem within (hclock : Steady closes reopens start l)
    (hcurrent : ∀ a ∈ current, start ≤ closes a ∧ ∀ b ∈ l, closes a ≤ closes b) :
    ∀ I ∈ cut closes reopens period start current l, Within closes I := by
  induction l generalizing start current with
  | nil => simp [cut]
  | cons a l ih =>
      obtain ⟨⟨hstart, -, hlater⟩, hsame, hnext⟩ := hclock.cons
      have hcounted : ∀ b ∈ current ++ [a], start ≤ closes b ∧ closes b ≤ closes a := by
        intro b hb
        rcases List.mem_append.mp hb with hb | hb
        · exact ⟨(hcurrent b hb).1, (hcurrent b hb).2 a List.mem_cons_self⟩
        · rw [List.mem_singleton.mp hb]
          exact ⟨hstart, Int.le_refl _⟩
      unfold cut
      split
      · refine ih hsame fun b hb => ⟨(hcounted b hb).1, fun c hc => ?_⟩
        exact Int.le_trans (hcounted b hb).2 (hlater c hc)
      · exact List.forall_mem_cons.mpr
          ⟨hcounted, ih hnext fun b hb => absurd hb List.not_mem_nil⟩

/-- A span lies between the start and the clock of an item. -/
theorem mem_cut (hclock : Steady closes reopens start l) {I : Span α}
    (hI : I ∈ cut closes reopens period start current l) :
    start ≤ I.start ∧ ∃ a ∈ l, I.stop = closes a := by
  induction l generalizing start current with
  | nil => cases hI
  | cons a l ih =>
      obtain ⟨⟨hstart, hreopens, -⟩, hsame, hnext⟩ := hclock.cons
      unfold cut at hI
      split at hI
      · obtain ⟨hle, b, hb, hstop⟩ := ih hsame hI
        exact ⟨hle, b, List.mem_cons_of_mem _ hb, hstop⟩
      · rcases List.mem_cons.mp hI with rfl | hI
        · exact ⟨Int.le_refl _, a, List.mem_cons_self, rfl⟩
        · obtain ⟨hle, b, hb, hstop⟩ := ih hnext hI
          exact ⟨by omega, b, List.mem_cons_of_mem _ hb, hstop⟩

end Span

end MobiPerf.Lib
