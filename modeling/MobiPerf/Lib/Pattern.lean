import Mathlib.Data.List.DropRight

/-!
# Lib.Pattern — patterns that match with backtracking

A pattern gives, for a text, its matches at the start of the text in the order a
backtracking matcher tries them: what is captured, and the text behind the
match. A repetition tries the longest match first. `find` tries a pattern at
every place, from the left.

What all captures of a pattern have in common (`Captures`) has one rule for each
way to build a pattern; `Captures.find` is what it says of a capture found.
-/

namespace MobiPerf.Lib

def Pattern (α β : Type) : Type := List α → List (β × List α)

namespace Pattern

variable {α β γ : Type}

instance : Monad (Pattern α) where
  pure b := fun text => [(b, text)]
  bind p f := fun text => (p text).flatMap fun m => f m.1 m.2

/-- One letter of a class. -/
def one (P : α → Bool) : Pattern α α
  | a :: text => if P a then [(a, text)] else []
  | [] => []

def word [BEq α] (w : List α) : Pattern α (List α) := fun text =>
  if w.isPrefixOf text then [(w, text.drop w.length)] else []

/-- At least `n` letters of a class, as many as possible first. -/
def run (P : α → Bool) (n : ℕ) : Pattern α (List α) := fun text =>
  let longest := text.takeWhile P
  (List.range (longest.length + 1 - n)).map fun i =>
    (longest.take (longest.length - i), text.drop (longest.length - i))

/-- The pattern, or else nothing. -/
def optional (p : Pattern α (List α)) : Pattern α (List α) := fun text => p text ++ [([], text)]

/-- The first capture, from the leftmost place that has one. -/
def find (p : Pattern α β) (text : List α) : Option β :=
  (text.tails.findSome? fun rest => (p rest).head?).map Prod.fst

/-! ## Captures -/

def Captures (p : Pattern α β) (Q : β → Prop) : Prop := ∀ text, ∀ m ∈ p text, Q m.1

variable {Q : β → Prop}

theorem captures_pure {b : β} (h : Q b) : Captures (α := α) (pure b) Q := by
  intro text m hm
  cases List.mem_singleton.mp hm
  exact h

theorem Captures.bind {p : Pattern α β} {f : β → Pattern α γ} {R : γ → Prop}
    (hp : Captures p Q) (hf : ∀ b, Q b → Captures (f b) R) : Captures (p >>= f) R := by
  intro text m hm
  obtain ⟨b, hb, hm⟩ := List.mem_flatMap.mp hm
  exact hf b.1 (hp text b hb) b.2 m hm

/-- A part whose capture does not matter. -/
theorem captures_bind_of_forall {p : Pattern α β} {f : β → Pattern α γ} {R : γ → Prop}
    (hf : ∀ b, Captures (f b) R) : Captures (p >>= f) R :=
  Captures.bind (Q := fun _ => True) (fun _ _ _ => trivial) fun b _ => hf b

theorem captures_run (P : α → Bool) (n : ℕ) :
    Captures (run P n) fun l => n ≤ l.length ∧ ∀ a ∈ l, P a := by
  intro text m hm
  obtain ⟨i, hi, rfl⟩ := List.mem_map.mp hm
  have hlt := List.mem_range.mp hi
  constructor
  · show n ≤ ((text.takeWhile P).take _).length
    rw [List.length_take]
    omega
  · intro a ha
    exact List.mem_takeWhile_imp (List.mem_of_mem_take ha)

theorem Captures.optional {p : Pattern α (List α)} {Q : List α → Prop} (hp : Captures p Q)
    (h : Q []) : Captures (optional p) Q := by
  intro text m hm
  rcases List.mem_append.mp hm with hm | hm
  · exact hp text m hm
  · cases List.mem_singleton.mp hm
    exact h

theorem Captures.find {p : Pattern α β} (hp : Captures p Q) {text : List α} {b : β}
    (h : p.find text = some b) : Q b := by
  obtain ⟨m, hm, rfl⟩ := Option.map_eq_some_iff.mp h
  obtain ⟨rest, -, hhead⟩ := List.exists_of_findSome?_eq_some hm
  exact hp rest m (List.mem_of_mem_head? hhead)

end Pattern

end MobiPerf.Lib
