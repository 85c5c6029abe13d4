import Mathlib.Data.List.Chain

/-!
# Lib.Repeats — items some of which repeat the one before

Each item of a list says whether it is new; one that is not repeats the item before it.
Taken as it is, such a list is that of its new items and of some others behind them only
when from the first repeat on there is one item and no other, and there are as many
others as repeats.
-/

namespace MobiPerf.Lib

variable {α β : Type*}

/-- An item that is not new repeats the one before it. -/
def RepeatsLast (items : List (Bool × α)) : Prop :=
  items.IsChain fun a b => b.1 = false → b.2 = a.2

/-- From the first repeat on there is one item only, also among those that are lost,
and as many are lost as are repeated. -/
structure MakesUp (items : List (Bool × α)) (lost : List α) : Prop where
  count : (items.countP fun a => !a.1) = lost.length
  same : ∀ x ∈ (items.dropWhile (·.1)).map (·.2) ++ lost,
    ∀ y ∈ (items.dropWhile (·.1)).map (·.2) ++ lost, x = y

instance [DecidableEq α] (items : List (Bool × α)) (lost : List α) :
    Decidable (MakesUp items lost) :=
  decidable_of_iff ((items.countP fun a => !a.1) = lost.length ∧
      ∀ x ∈ (items.dropWhile (·.1)).map (·.2) ++ lost,
        ∀ y ∈ (items.dropWhile (·.1)).map (·.2) ++ lost, x = y)
    ⟨fun h => ⟨h.1, h.2⟩, fun h => ⟨h.count, h.same⟩⟩

namespace RepeatsLast

variable {items : List (Bool × α)}

theorem tail {a : Bool × α} (h : RepeatsLast (a :: items)) : RepeatsLast items :=
  List.IsChain.tail h

theorem map (f : α → β) (h : RepeatsLast items) :
    RepeatsLast (items.map fun a => (a.1, f a.2)) := by
  refine (List.isChain_map _).mpr (h.imp fun a b hab hb => ?_)
  exact congrArg f (hab hb)

theorem takeWhile (p : Bool × α → Bool) (h : RepeatsLast items) :
    RepeatsLast (items.takeWhile p) :=
  h.prefix (List.takeWhile_prefix p)

/-- What is left out behind `a` is no item that `b` repeats. -/
theorem filter_cons {q : α → Bool} {a b : Bool × α} (h : RepeatsLast (a :: items))
    (hb : q a.2 = true → b = a) : RepeatsLast (b :: items.filter fun c => q c.2) := by
  induction items generalizing a b with
  | nil => exact List.isChain_singleton b
  | cons c items ih =>
      obtain ⟨hlast, hrest⟩ := List.isChain_cons_cons.mp h
      by_cases hc : q c.2 = true
      · rw [List.filter_cons_of_pos (p := fun c : Bool × α => q c.2) hc]
        refine List.isChain_cons_cons.mpr ⟨fun hrepeat => ?_, ih hrest fun _ => rfl⟩
        have heq := hlast hrepeat
        rw [hb (heq ▸ hc), heq]
      · rw [List.filter_cons_of_neg (p := fun c : Bool × α => q c.2) hc]
        exact ih hrest fun h => absurd h hc

theorem filter (q : α → Bool) (h : RepeatsLast items) :
    RepeatsLast (items.filter fun a => q a.2) := by
  cases items with
  | nil => exact h
  | cons a items =>
      have hcons := filter_cons (q := q) h fun _ => rfl
      by_cases ha : q a.2 = true
      · rwa [List.filter_cons_of_pos (p := fun c : Bool × α => q c.2) ha]
      · rw [List.filter_cons_of_neg (p := fun c : Bool × α => q c.2) ha]
        exact hcons.tail

/-- A list that is its new items, moved back by some repeats of `x`, holds nothing but
`x`: each item is one that stands further in front. -/
theorem eq_of_shifted {x : α} {b : Bool} {lost : List α} {k m : ℕ}
    (h : RepeatsLast ((b, x) :: items)) (hk : k ≤ m)
    (heq : List.replicate (m + 1) x ++ items.map (·.2) =
      List.replicate k x ++ ((items.filter (·.1)).map (·.2) ++ lost)) :
    ∀ y ∈ items.map (·.2), y = x := by
  induction items generalizing b k m with
  | nil => simp
  | cons a items ih =>
      obtain ⟨fresh, y⟩ := a
      obtain ⟨hlast, hrest⟩ := List.isChain_cons_cons.mp h
      have hmore : ∀ l : List α, List.replicate (m + 1) x ++ x :: l =
          List.replicate (m + 2) x ++ l := by
        intro l
        rw [List.replicate_succ' (n := m + 1), List.append_assoc, List.singleton_append]
      cases fresh with
      | false =>
          obtain rfl : y = x := hlast rfl
          rw [List.map_cons, hmore, List.filter_cons_of_neg Bool.false_ne_true] at heq
          exact List.forall_mem_cons.mpr ⟨rfl, ih hrest (Nat.le_succ_of_le hk) heq⟩
      | true =>
          -- `y` is where one of the items `x` is
          rw [List.filter_cons_of_pos rfl, List.map_cons] at heq
          have hget := congrArg (·[k]?) heq
          have hy : y = x := by
            simp only [List.getElem?_append_left, List.length_replicate,
              Nat.lt_succ_of_le hk, List.getElem?_replicate, if_true] at hget
            simpa using hget.symm
          subst hy
          rw [List.map_cons, hmore, List.cons_append, ← List.singleton_append, ← List.append_assoc,
            ← List.replicate_succ'] at heq
          exact List.forall_mem_cons.mpr ⟨rfl, ih hrest (Nat.succ_le_succ hk) heq⟩

/-- Each item is new or not. -/
theorem length_new (items : List (Bool × α)) :
    ((items.filter (·.1)).map (·.2)).length + (items.countP fun a => !a.1) = items.length := by
  rw [List.length_map, ← List.countP_eq_length_filter,
    List.length_eq_countP_add_countP fun a : Bool × α => a.1]
  simp

theorem makesUp_of_eq {x : α} {lost : List α} (h : RepeatsLast ((false, x) :: items))
    (heq : ((false, x) :: items).map (·.2) = (items.filter (·.1)).map (·.2) ++ lost) :
    MakesUp ((false, x) :: items) lost := by
  have hall : ∀ y ∈ ((false, x) :: items).map (·.2), y = x :=
    List.forall_mem_cons.mpr ⟨rfl, eq_of_shifted (k := 0) (m := 0) h (Nat.le_refl 0) heq⟩
  have hsame : ∀ y ∈ ((false, x) :: items).map (·.2) ++ lost, y = x := by
    intro y hy
    rcases List.mem_append.mp hy with hy | hy
    · exact hall y hy
    · exact hall y (heq ▸ List.mem_append_right _ hy)
  refine ⟨?_, fun y hy z hz => (hsame y hy).trans (hsame z hz).symm⟩
  have hlength := congrArg List.length heq
  have hnew := length_new items
  rw [List.length_append, List.length_map, List.length_cons] at hlength
  rw [List.countP_cons_of_pos rfl]
  omega

theorem eq_of_makesUp {x : α} {lost : List α} (h : MakesUp ((false, x) :: items) lost) :
    ((false, x) :: items).map (·.2) = (items.filter (·.1)).map (·.2) ++ lost := by
  have hsame : ∀ y ∈ ((false, x) :: items).map (·.2) ++ lost, y = x := fun y hy =>
    h.same y hy x List.mem_cons_self
  have hright : ∀ y ∈ (items.filter (·.1)).map (·.2) ++ lost, y = x := by
    intro y hy
    rcases List.mem_append.mp hy with hy | hy
    · obtain ⟨a, ha, rfl⟩ := List.mem_map.mp hy
      refine hsame a.2 (List.mem_append_left _ (List.mem_cons_of_mem _ ?_))
      exact List.mem_map_of_mem (List.mem_of_mem_filter ha)
    · exact hsame y (List.mem_append_right _ hy)
  have hcount := h.count
  have hnew := length_new items
  rw [List.countP_cons_of_pos rfl] at hcount
  -- both are as many times `x`
  rw [List.eq_replicate_of_mem fun y hy => hsame y (List.mem_append_left _ hy),
    List.eq_replicate_of_mem hright, List.length_map, List.length_cons, List.length_append]
  congr 1
  omega

theorem map_snd_eq_iff (h : RepeatsLast items) (lost : List α) :
    items.map (·.2) = (items.filter (·.1)).map (·.2) ++ lost ↔ MakesUp items lost := by
  induction items with
  | nil =>
      constructor
      · intro heq
        have hlost : lost = [] := by simpa using heq.symm
        subst hlost
        exact ⟨rfl, by simp⟩
      · intro hmakes
        have hlost : lost = [] := List.length_eq_zero_iff.mp hmakes.count.symm
        rw [hlost]
        rfl
  | cons a items ih =>
      obtain ⟨fresh, x⟩ := a
      cases fresh with
      | true =>
          have hmakes : MakesUp ((true, x) :: items) lost ↔ MakesUp items lost := by
            constructor
            · rintro ⟨hcount, hsame⟩
              exact ⟨by simpa using hcount, by simpa using hsame⟩
            · rintro ⟨hcount, hsame⟩
              exact ⟨by simpa using hcount, by simpa using hsame⟩
          rw [hmakes, ← ih h.tail, List.filter_cons_of_pos rfl, List.map_cons, List.map_cons,
            List.cons_append, List.cons_inj_right]
      | false =>
          rw [List.filter_cons_of_neg Bool.false_ne_true]
          exact ⟨makesUp_of_eq h, eq_of_makesUp⟩

end RepeatsLast

end MobiPerf.Lib
