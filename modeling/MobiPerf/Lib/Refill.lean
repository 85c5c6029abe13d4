import Mathlib.Algebra.BigOperators.Group.Finset.Basic
import Mathlib.Algebra.Order.BigOperators.Group.Finset
import Mathlib.Data.Fintype.Basic
import MobiPerf.Lib.Transition

/-!
# Lib.Refill — writers that clear a shared bag and refill it

Each of several writers replaces the contents of a shared bag by items of its
own, not in one step: it clears the bag, and then adds its items one by one. No
lock keeps two writers apart.

* `shared_eq_items`: if no writer clears while another is still adding, then the
  bag holds in the end the items of one writer.
* `shared_mixed`: if one of two writers does so, then the bag holds in the end
  items of both.
* `card_le`: after the first clearing, the bag never holds more than there are
  items.
-/

namespace MobiPerf.Lib

variable {ι α : Type*} [DecidableEq ι]

/-- How far a writer is: it has not cleared the bag yet, or it has and these
items are left to add. -/
inductive Phase (α : Type*) where
  | waiting (items : List α)
  | filling (left : List α)
deriving DecidableEq, Repr

namespace Phase

def left : Phase α → List α
  | .waiting items => items
  | .filling left => left

/-- The writer has cleared the bag and has items left to add. -/
def Busy : Phase α → Prop
  | .waiting _ => False
  | .filling left => left ≠ []

end Phase

structure Refill (ι α : Type*) where
  shared : Multiset α
  phase : ι → Phase α

inductive RefillStep (ι : Type*) where
  | clear (i : ι)
  | add (i : ι)

namespace Refill

def step : RefillStep ι → Refill ι α → Option (Refill ι α)
  | .clear i, s =>
    match s.phase i with
    | .waiting items => some ⟨0, Function.update s.phase i (.filling items)⟩
    | .filling _ => none
  | .add i, s =>
    match s.phase i with
    | .filling (a :: left) => some ⟨a ::ₘ s.shared, Function.update s.phase i (.filling left)⟩
    | _ => none

/-- The runs in which writer `i` has `items i` to write. -/
def refill (items : ι → List α) : System (Refill ι α) (RefillStep ι) where
  Init s := ∀ i, s.phase i = .waiting (items i)
  step := step

/-- A writer clears the bag only when no other one is adding. -/
def ClearsApart : RefillStep ι → Refill ι α → Prop
  | .clear i, s => ∀ j, j ≠ i → ¬ (s.phase j).Busy
  | .add _, _ => True

/-- Every writer is through. -/
def Finished (s : Refill ι α) : Prop := ∀ i, s.phase i = .filling []

variable {items : ι → List α} {s s' : Refill ι α}

/-- The two steps there are. -/
theorem step_cases {label : RefillStep ι} (h : (refill items).step label s = some s') :
    (∃ i ws, label = .clear i ∧ s.phase i = .waiting ws ∧
      s' = ⟨0, Function.update s.phase i (.filling ws)⟩) ∨
    ∃ i a left, label = .add i ∧ s.phase i = .filling (a :: left) ∧
      s' = ⟨a ::ₘ s.shared, Function.update s.phase i (.filling left)⟩ := by
  cases label with
  | clear i =>
      cases hphase : s.phase i with
      | waiting ws =>
          simp only [refill, step, hphase] at h
          cases h
          exact .inl ⟨i, ws, rfl, hphase, rfl⟩
      | filling left => simp [refill, step, hphase] at h
  | add i =>
      cases hphase : s.phase i with
      | waiting ws => simp [refill, step, hphase] at h
      | filling left =>
          cases left with
          | nil => simp [refill, step, hphase] at h
          | cons a left =>
              simp only [refill, step, hphase] at h
              cases h
              exact .inr ⟨i, a, left, rfl, hphase, rfl⟩

/-! ## What is left -/

/-- What a writer has left is of its items; before it clears, all of them. -/
def LeftOf (items : ι → List α) (s : Refill ι α) : Prop :=
  ∀ i, (s.phase i).left <:+ items i ∧ ∀ ws, s.phase i = .waiting ws → ws = items i

theorem LeftOf.init (h : (refill items).Init s) : LeftOf items s := by
  intro i
  rw [h i]
  refine ⟨List.suffix_refl _, ?_⟩
  rintro ws ⟨⟩
  rfl

theorem LeftOf.step {label : RefillStep ι} (h : LeftOf items s)
    (hstep : (refill items).step label s = some s') : LeftOf items s' := by
  intro i
  rcases step_cases hstep with ⟨j, ws, -, hphase, rfl⟩ | ⟨j, a, left, -, hphase, rfl⟩
  · by_cases hij : i = j
    · subst hij
      have hleft := (h i).1
      rw [hphase] at hleft
      simp only [Function.update_self]
      exact ⟨hleft, nofun⟩
    · simp only [Function.update_of_ne hij]
      exact h i
  · by_cases hij : i = j
    · subst hij
      have hleft := (h i).1
      rw [hphase] at hleft
      simp only [Function.update_self]
      exact ⟨(List.suffix_cons a left).trans hleft, nofun⟩
    · simp only [Function.update_of_ne hij]
      exact h i

theorem reachable_leftOf (h : (refill items).Reachable s) : LeftOf items s :=
  h.invariant (fun _ => LeftOf.init) fun _ _ _ => LeftOf.step

/-! ## Writers apart -/

/-- Nothing is cleared yet, or the bag and what one writer has left are its
items, while no other writer is adding. -/
def OneWriter (items : ι → List α) (s : Refill ι α) : Prop :=
  (∀ i, s.phase i = .waiting (items i)) ∨
    ∃ i left, s.phase i = .filling left ∧ s.shared + left = items i ∧
      ∀ j, j ≠ i → ¬ (s.phase j).Busy

theorem OneWriter.step {label : RefillStep ι} (h : OneWriter items s) (hleft : LeftOf items s)
    (hok : ClearsApart label s) (hstep : (refill items).step label s = some s') :
    OneWriter items s' := by
  rcases step_cases hstep with ⟨i, ws, rfl, hphase, rfl⟩ | ⟨i, a, left, rfl, hphase, rfl⟩
  · -- writer `i` is the one now
    refine .inr ⟨i, ws, Function.update_self .., ?_, ?_⟩
    · rw [(hleft i).2 ws hphase]
      exact zero_add _
    · intro j hj
      simp only [Function.update_of_ne hj]
      exact hok j hj
  · rcases h with hwaiting | ⟨j, left', hphase', hshared, hothers⟩
    · rw [hwaiting i] at hphase
      cases hphase
    · have hij : i = j := by
        by_contra hne
        refine hothers i hne ?_
        rw [hphase]
        exact List.cons_ne_nil a left
      subst hij
      rw [hphase] at hphase'
      cases hphase'
      refine .inr ⟨i, left, Function.update_self .., ?_, ?_⟩
      · rw [← hshared, ← Multiset.cons_coe, Multiset.cons_add, Multiset.add_cons]
      · intro k hk
        simp only [Function.update_of_ne hk]
        exact hothers k hk

theorem reachable_oneWriter (h : (refill items).ReachableBy ClearsApart s) :
    OneWriter items s := by
  refine h.invariant_of (fun s₀ hinit => .inl hinit) ?_
  intro label s s' hreach hs hok hstep
  exact hs.step (reachable_leftOf hreach.reachable) hok hstep

/-- No writer clears while another is adding: the bag ends up with the items of
one of them. -/
theorem shared_eq_items [Nonempty ι] (h : (refill items).ReachableBy ClearsApart s)
    (hfinished : s.Finished) : ∃ i, s.shared = items i := by
  rcases reachable_oneWriter h with hwaiting | ⟨i, left, hphase, hshared, -⟩
  · have i : ι := Classical.arbitrary ι
    have hphase := hwaiting i
    rw [hfinished i] at hphase
    cases hphase
  · rw [hfinished i] at hphase
    cases hphase
    exact ⟨i, by simpa using hshared⟩

/-! ## Writers that overlap -/

/-- Every writer has cleared the bag, and has an item in it or one left to add. -/
structure Mixing (items : ι → List α) (s : Refill ι α) : Prop where
  leftOf : LeftOf items s
  cleared : ∀ i ws, s.phase i ≠ .waiting ws
  present : ∀ i, (∃ x ∈ s.shared, x ∈ items i) ∨ (s.phase i).Busy

theorem Mixing.step {label : RefillStep ι} (h : Mixing items s)
    (hstep : (refill items).step label s = some s') : Mixing items s' := by
  have hleft := h.leftOf.step hstep
  rcases step_cases hstep with ⟨i, ws, rfl, hphase, rfl⟩ | ⟨i, a, left, rfl, hphase, rfl⟩
  · exact absurd hphase (h.cleared i ws)
  · refine ⟨hleft, ?_, ?_⟩
    · intro j ws
      by_cases hj : j = i
      · subst hj
        simp only [Function.update_self]
        exact nofun
      · simp only [Function.update_of_ne hj]
        exact h.cleared j ws
    · intro j
      by_cases hj : j = i
      · -- the writer's item is in the bag now
        subst hj
        have hsuffix := (h.leftOf j).1
        rw [hphase] at hsuffix
        exact .inl ⟨a, Multiset.mem_cons_self a _, hsuffix.subset List.mem_cons_self⟩
      · simp only [Function.update_of_ne hj]
        rcases h.present j with ⟨x, hx, hitems⟩ | hbusy
        · exact .inl ⟨x, Multiset.mem_cons_of_mem hx, hitems⟩
        · exact .inr hbusy

/-- Of two writers, one clears while the other is adding: the bag ends up with
items of both. -/
theorem shared_mixed {i j : ι} (honly : ∀ k, k = i ∨ k = j) {s₁ s₂ : Refill ι α}
    (h₁ : (refill items).Reachable s₁) (hbusy : (s₁.phase j).Busy) (hitems : items i ≠ [])
    (hclear : (refill items).step (.clear i) s₁ = some s₂)
    (hsteps : (refill items).Steps (fun _ _ => True) s₂ s) (hfinished : s.Finished) :
    ∀ k, ∃ x ∈ s.shared, x ∈ items k := by
  have hstart : Mixing items s₂ := by
    have hleft := reachable_leftOf h₁
    have hleft' := hleft.step hclear
    rcases step_cases hclear with ⟨i', ws, hlabel, hphase, rfl⟩ | ⟨_, _, _, hlabel, -⟩
    · -- behind the clearing both writers have items to add
      cases hlabel
      have hij : j ≠ i := by
        rintro rfl
        rw [hphase] at hbusy
        exact hbusy
      have hi : Function.update s₁.phase i (.filling ws) i = .filling ws :=
        Function.update_self ..
      have hj : Function.update s₁.phase i (.filling ws) j = s₁.phase j :=
        Function.update_of_ne hij ..
      refine ⟨hleft', ?_, ?_⟩
      · intro k ws'
        dsimp only
        rcases honly k with rfl | rfl
        · rw [hi]
          exact nofun
        · rw [hj]
          intro hwaiting
          rw [hwaiting] at hbusy
          exact hbusy
      · intro k
        right
        dsimp only
        rcases honly k with rfl | rfl
        · rw [hi]
          have hws := (hleft k).2 ws hphase
          exact hws ▸ hitems
        · rw [hj]
          exact hbusy
    · cases hlabel
  have hend : Mixing items s := hsteps.preserves (fun _ _ _ hs _ => hs.step) hstart
  intro k
  rcases hend.present k with hpresent | hbusy
  · exact hpresent
  · rw [hfinished k] at hbusy
    exact absurd rfl hbusy

/-! ## The size of the bag -/

/-- From the first clearing on, what is in the bag and what is left are no more
than there are items. -/
def Bounded [Fintype ι] (items : ι → List α) (s : Refill ι α) : Prop :=
  (∀ i, s.phase i = .waiting (items i)) ∨
    s.shared.card + ∑ i, (s.phase i).left.length ≤ ∑ i, (items i).length

theorem card_le [Fintype ι] (h : (refill items).Reachable s) : Bounded items s := by
  refine h.invariant_of (P := Bounded items) (fun s₀ hinit => .inl hinit) ?_
  intro label s s' hreach hbounded _ hstep
  right
  rcases step_cases hstep with ⟨i, ws, rfl, hphase, rfl⟩ | ⟨i, a, left, rfl, hphase, rfl⟩
  · have hleft' := (reachable_leftOf hreach).step hstep
    rw [Multiset.card_zero, zero_add]
    exact Finset.sum_le_sum fun k _ => (hleft' k).1.length_le
  · rcases hbounded with hwaiting | hle
    · rw [hwaiting i] at hphase
      cases hphase
    · -- one item goes from what is left into the bag
      have hrest : ∑ k ∈ Finset.univ.erase i,
            (Function.update s.phase i (.filling left) k).left.length =
          ∑ k ∈ Finset.univ.erase i, (s.phase k).left.length := by
        refine Finset.sum_congr rfl fun k hk => ?_
        rw [Function.update_of_ne (Finset.ne_of_mem_erase hk)]
      rw [← Finset.add_sum_erase _ _ (Finset.mem_univ i), hphase] at hle
      rw [← Finset.add_sum_erase _ _ (Finset.mem_univ i), hrest]
      simp only [Function.update_self, Phase.left, List.length_cons, Multiset.card_cons]
        at hle ⊢
      omega

end Refill

end MobiPerf.Lib
