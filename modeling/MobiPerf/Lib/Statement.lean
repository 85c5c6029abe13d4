import Mathlib.Data.List.Basic

/-!
# Lib.Statement — statements that may throw

A statement of an imperative language with exceptions changes a state and ends
normally or with an exception. Unlike a computation that fails as a whole, what
it did before it threw stays done, and code that catches the exception goes on
from there.

Three kinds of rules: `Keeps P` is an invariant of a statement however it ends, the
completion rules say what a block that ended normally must have done, and for loops
whose steps append to a list, `block_of_none` and `block_of_some` say what they have
written when they come to their end, and when a step leaves them.
-/

namespace MobiPerf.Lib

/-- How a statement ends (`none` is normally) and the state it leaves. -/
abbrev Stmt (ε σ : Type*) := σ → Option ε × σ

namespace Stmt

variable {ε σ : Type*}

def act (f : σ → σ) : Stmt ε σ := fun s => (none, f s)

def skip : Stmt ε σ := act id

/-- Two statements: the second only runs when the first ended normally. -/
def seq (m n : Stmt ε σ) : Stmt ε σ := fun s =>
  match m s with
  | (none, s) => n s
  | (some e, s) => (some e, s)

def block (ms : List (Stmt ε σ)) : Stmt ε σ := ms.foldr seq skip

/-- `if (test) m`. -/
def when (test : σ → Bool) (m : Stmt ε σ) : Stmt ε σ := fun s => if test s then m s else (none, s)

/-- `try m catch (e) {}` for the exceptions `caught`. -/
def tryCatch (caught : ε → Bool) (m : Stmt ε σ) : Stmt ε σ := fun s =>
  match m s with
  | (none, s) => (none, s)
  | (some e, s) => (if caught e then none else some e, s)

/-! ## Evaluation -/

theorem seq_of_none {m n : Stmt ε σ} {s s' : σ} (h : m s = (none, s')) : m.seq n s = n s' := by
  unfold seq
  rw [h]

theorem seq_of_some {m n : Stmt ε σ} {s s' : σ} {e : ε} (h : m s = (some e, s')) :
    m.seq n s = (some e, s') := by
  unfold seq
  rw [h]

/-- Catching exceptions changes how a statement ends, not what it leaves. -/
theorem tryCatch_snd (caught : ε → Bool) (m : Stmt ε σ) (s : σ) :
    (m.tryCatch caught s).2 = (m s).2 := by
  unfold tryCatch
  split
  · rename_i s' heq
    rw [heq]
  · rename_i e s' heq
    rw [heq]

/-! ## Invariants -/

/-- However the statement ends, it keeps `P`. -/
def Keeps (P : σ → Prop) (m : Stmt ε σ) : Prop := ∀ s, P s → P (m s).2

variable {P : σ → Prop}

theorem keeps_skip : Keeps P (skip : Stmt ε σ) := fun _ h => h

/-- What the first of two statements establishes and the second keeps. -/
theorem seq_establishes {m n : Stmt ε σ} {s : σ} (h : P (m s).2) (hn : Keeps P n) :
    P (m.seq n s).2 := by
  cases heq : m s with
  | mk e s' =>
      rw [heq] at h
      cases e with
      | none =>
          rw [seq_of_none heq]
          exact hn s' h
      | some e =>
          rw [seq_of_some heq]
          exact h

theorem Keeps.seq {m n : Stmt ε σ} (hm : Keeps P m) (hn : Keeps P n) : Keeps P (m.seq n) :=
  fun s h => seq_establishes (hm s h) hn

theorem keeps_block {ms : List (Stmt ε σ)} (h : ∀ m ∈ ms, Keeps P m) : Keeps P (block ms) := by
  induction ms with
  | nil => exact keeps_skip
  | cons m ms ih =>
      have htail : Keeps P (block ms) := ih fun n hn => h n (List.mem_cons_of_mem m hn)
      exact (h m List.mem_cons_self).seq htail

theorem keeps_pair {m n : Stmt ε σ} (hm : Keeps P m) (hn : Keeps P n) :
    Keeps P (block [m, n]) := by
  refine keeps_block ?_
  simp only [List.forall_mem_cons]
  exact ⟨hm, hn, List.forall_mem_nil _⟩

/-- What the first statement establishes and the others keep, the block leaves. -/
theorem block_cons_establishes {m : Stmt ε σ} {ms : List (Stmt ε σ)} {s : σ} (h : P (m s).2)
    (hms : ∀ n ∈ ms, Keeps P n) : P (block (m :: ms) s).2 :=
  seq_establishes h (keeps_block hms)

theorem Keeps.when {test : σ → Bool} {m : Stmt ε σ} (hm : ∀ s, test s = true → P s → P (m s).2) :
    Keeps P (m.when test) := by
  intro s h
  unfold Stmt.when
  split
  · rename_i htest
    exact hm s htest h
  · exact h

theorem Keeps.tryCatch {m : Stmt ε σ} (hm : Keeps P m) (caught : ε → Bool) :
    Keeps P (m.tryCatch caught) := by
  intro s h
  rw [tryCatch_snd]
  exact hm s h

/-! ## Completion -/

/-- A sequence that ended normally ran both statements to their ends. -/
theorem seq_eq_none {m n : Stmt ε σ} {s : σ} (h : (m.seq n s).1 = none) :
    (m s).1 = none ∧ (n (m s).2).1 = none := by
  cases heq : m s with
  | mk e s' =>
      cases e with
      | none =>
          rw [seq_of_none heq] at h
          exact ⟨rfl, h⟩
      | some e =>
          rw [seq_of_some heq] at h
          cases h

/-- A block that ended normally ran each of its statements to its end. -/
theorem block_eq_none {ms : List (Stmt ε σ)} {s : σ} (h : (block ms s).1 = none) :
    ∀ m ∈ ms, ∃ s', (m s').1 = none := by
  induction ms generalizing s with
  | nil => exact fun m hm => absurd hm List.not_mem_nil
  | cons n ms ih =>
      rcases seq_eq_none h with ⟨hfirst, hrest⟩
      intro m hm
      rcases List.mem_cons.mp hm with rfl | hm
      · exact ⟨s, hfirst⟩
      · exact ih hrest m hm

/-- When only the last statement of a block can establish `P`, and `P` holds at
the end, the others ran to their ends and the last one established it. -/
theorem block_concat_establishes {ms : List (Stmt ε σ)} {m : Stmt ε σ} {s : σ}
    (hkeep : ∀ n ∈ ms, Keeps (fun s => ¬ P s) n) (hs : ¬ P s)
    (h : P (block (ms ++ [m]) s).2) :
    (∀ n ∈ ms, ∃ s', (n s').1 = none) ∧ ∃ s', ¬ P s' ∧ P (m s').2 := by
  induction ms generalizing s with
  | nil =>
      refine ⟨fun n hn => absurd hn List.not_mem_nil, s, hs, ?_⟩
      have hlast : P (m.seq skip s).2 := h
      cases heq : m s with
      | mk e s' =>
          cases e with
          | none => rwa [seq_of_none heq] at hlast
          | some e => rwa [seq_of_some heq] at hlast
  | cons n ms ih =>
      have hn : ¬ P (n s).2 := hkeep n List.mem_cons_self s hs
      have hcons : P (n.seq (block (ms ++ [m])) s).2 := h
      cases heq : n s with
      | mk e s' =>
          rw [heq] at hn
          cases e with
          | none =>
              rw [seq_of_none heq] at hcons
              rcases ih (fun k hk => hkeep k (List.mem_cons_of_mem n hk)) hn hcons with
                ⟨hall, hlast⟩
              refine ⟨fun k hk => ?_, hlast⟩
              rcases List.mem_cons.mp hk with rfl | hk
              · exact ⟨s, by rw [heq]⟩
              · exact hall k hk
          | some e =>
              -- the rest of the block did not run
              rw [seq_of_some heq] at hcons
              exact absurd hcons hn

/-! ## Loops -/

theorem seq_assoc (m n k : Stmt ε σ) : (m.seq n).seq k = m.seq (n.seq k) := by
  funext s
  unfold seq
  rcases m s with ⟨_ | e, s'⟩
  · rfl
  · rfl

theorem block_append (ms ns : List (Stmt ε σ)) : block (ms ++ ns) = (block ms).seq (block ns) := by
  induction ms with
  | nil => rfl
  | cons m ms ih =>
      show m.seq (block (ms ++ ns)) = (m.seq (block ms)).seq (block ns)
      rw [ih, seq_assoc]

/-- A loop in a loop is one over the steps of all. -/
theorem block_flatMap {β : Type*} (bs : List β) (f : β → List (Stmt ε σ)) :
    block (bs.map fun b => block (f b)) = block (bs.flatMap f) := by
  induction bs with
  | nil => rfl
  | cons b bs ih =>
      rw [List.flatMap_cons, block_append, ← ih]
      rfl

section Output

variable {α β : Type*} {f : β → Stmt ε (List α)} {out : β → List α}

/-- A loop whose steps all end normally, each with its part of the output. -/
theorem block_of_none {bs : List β} (h : ∀ b ∈ bs, ∀ s, f b s = (none, s ++ out b))
    (s : List α) : block (bs.map f) s = (none, s ++ bs.flatMap out) := by
  induction bs generalizing s with
  | nil => exact congrArg _ (List.append_nil s).symm
  | cons b bs ih =>
      rw [List.forall_mem_cons] at h
      show (f b).seq (block (bs.map f)) s = _
      rw [seq_of_none (h.1 s), ih h.2, List.flatMap_cons, List.append_assoc]

/-- A loop is left at the first of its steps that throws. -/
theorem block_of_some {before after : List β} {b : β} {e : ε} {written : List α}
    (h : ∀ c ∈ before, ∀ s, f c s = (none, s ++ out c))
    (hb : ∀ s, f b s = (some e, s ++ written)) (s : List α) :
    block ((before ++ b :: after).map f) s =
      (some e, s ++ (before.flatMap out ++ written)) := by
  have hfirst := block_of_none h s
  have hrest : block ((b :: after).map f) (s ++ before.flatMap out) =
      (some e, s ++ before.flatMap out ++ written) := seq_of_some (hb _)
  rw [List.map_append, block_append, seq_of_none hfirst, hrest, List.append_assoc]

end Output

end Stmt

end MobiPerf.Lib
