import Mathlib.Logic.Basic

/-!
# Lib.Custody — objects that are in one place at a time

Concurrent threads hand objects on: from a thread to a shared structure, from
there to another thread. `holds p r` says that the object `r` is in the place
`p`; custody is exclusive when no object is in two places. The rules say which
steps keep it so: one that only lets go of objects, one that takes an object
from a place to another, and one that makes a new object.
-/

namespace MobiPerf.Lib

variable {P R : Type*} {holds holds' : P → R → Prop}

/-- No object is in two places. -/
def Exclusive (holds : P → R → Prop) : Prop :=
  ∀ p q r, holds p r → holds q r → p = q

theorem Exclusive.mono (h : Exclusive holds) (hsub : ∀ p r, holds' p r → holds p r) :
    Exclusive holds' := by
  intro p q r hp hq
  exact h p q r (hsub p r hp) (hsub q r hq)

/-- An object that was nowhere is put in one place. -/
theorem Exclusive.create (h : Exclusive holds) {p₁ : P} {r₁ : R} (hnew : ∀ p, ¬ holds p r₁)
    (hstep : ∀ p r, holds' p r → holds p r ∨ (p = p₁ ∧ r = r₁)) : Exclusive holds' := by
  intro p q r hp hq
  rcases hstep p r hp with hp | ⟨rfl, rfl⟩
  · rcases hstep q r hq with hq | ⟨rfl, rfl⟩
    · exact h p q r hp hq
    · exact absurd hp (hnew p)
  · rcases hstep q r hq with hq | ⟨rfl, _⟩
    · exact absurd hq (hnew q)
    · rfl

/-- An object is moved from `p₀`, which holds it no longer, to `p₁`. -/
theorem Exclusive.move (h : Exclusive holds) {p₀ p₁ : P} {r₁ : R} (hfrom : holds p₀ r₁)
    (hstep : ∀ p r, holds' p r → (holds p r ∧ (p = p₀ → r ≠ r₁)) ∨ (p = p₁ ∧ r = r₁)) :
    Exclusive holds' := by
  have hrest : Exclusive fun p r => holds p r ∧ (p = p₀ → r ≠ r₁) :=
    h.mono fun p r hr => hr.1
  refine hrest.create ?_ hstep
  rintro p ⟨hp, hne⟩
  exact hne (h p p₀ r₁ hp hfrom) rfl

/-- What holds of every object that is somewhere, holds of it after the move. -/
theorem forall_of_move {C : R → Prop} (hall : ∀ p r, holds p r → C r) {p₀ p₁ : P} {r₁ : R}
    (hfrom : holds p₀ r₁)
    (hstep : ∀ p r, holds' p r → (holds p r ∧ (p = p₀ → r ≠ r₁)) ∨ (p = p₁ ∧ r = r₁)) :
    ∀ p r, holds' p r → C r := by
  intro p r hp
  rcases hstep p r hp with ⟨hold, _⟩ | ⟨_, rfl⟩
  · exact hall p r hold
  · exact hall p₀ r hfrom

end MobiPerf.Lib
