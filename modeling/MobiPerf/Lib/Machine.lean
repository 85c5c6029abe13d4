import Mathlib.Order.Basic

/-!
# Lib.Machine — machines that step until they halt

A machine maps a state to the next state or halts with a result. `run` takes a
number of steps, and `Yields` says that some number of them reaches a result.
The rules are those of a deterministic program: what each step keeps a run keeps,
a measure that each step lowers brings the run to its end, and a machine that
follows another from related states yields what the other yields.
-/

namespace MobiPerf.Lib

variable {σ ρ τ : Type*}

/-- What one step leads to. -/
inductive Stepped (σ ρ : Type*) where
  | next (s : σ)
  | halt (r : ρ)
deriving DecidableEq, Repr

namespace Stepped

/-- Go on from the next state. -/
def bind (x : Stepped σ ρ) (f : σ → Stepped τ ρ) : Stepped τ ρ :=
  match x with
  | next s => f s
  | halt r => halt r

@[simp] theorem bind_next (s : σ) (f : σ → Stepped τ ρ) : (next s : Stepped σ ρ).bind f = f s :=
  rfl

@[simp] theorem bind_halt (r : ρ) (f : σ → Stepped τ ρ) : (halt r : Stepped σ ρ).bind f = halt r :=
  rfl

theorem bind_assoc {υ : Type*} (x : Stepped σ ρ) (f : σ → Stepped τ ρ) (g : τ → Stepped υ ρ) :
    (x.bind f).bind g = x.bind fun s => (f s).bind g := by
  cases x <;> rfl

/-- A sequence goes on when both of its steps do. -/
theorem bind_eq_next {x : Stepped σ ρ} {f : σ → Stepped τ ρ} {t : τ} :
    x.bind f = next t ↔ ∃ s, x = next s ∧ f s = next t := by
  cases x <;> simp

/-- It halts at the first step or at the second. -/
theorem bind_eq_halt {x : Stepped σ ρ} {f : σ → Stepped τ ρ} {r : ρ} :
    x.bind f = halt r ↔ x = halt r ∨ ∃ s, x = next s ∧ f s = halt r := by
  cases x <;> simp

end Stepped

/-- A state leads to a state, or the machine halts. -/
abbrev Machine (σ ρ : Type*) := σ → Stepped σ ρ

namespace Machine

variable (m : Machine σ ρ)

/-- At most `n` steps. -/
def run : ℕ → σ → Stepped σ ρ
  | 0, s => .next s
  | n + 1, s => (m s).bind (run n)

/-- The run from `s` halts with `r`. -/
def Yields (s : σ) (r : ρ) : Prop := ∃ n, m.run n s = .halt r

variable {m} {s s' : σ} {r : ρ}

@[simp] theorem run_zero : m.run 0 s = .next s := rfl

/-- A run takes its first step first. -/
theorem run_succ (n : ℕ) : m.run (n + 1) s = (m s).bind (m.run n) := rfl

/-- A run may be cut in two. -/
theorem run_add (n k : ℕ) : m.run (n + k) s = (m.run n s).bind (m.run k) := by
  induction n generalizing s with
  | zero => simp
  | succ n ih =>
      rw [Nat.succ_add, run_succ, run_succ, Stepped.bind_assoc]
      congr 1
      funext t
      exact ih

/-- A run that has halted stays so. -/
theorem run_of_le {n k : ℕ} (h : m.run n s = .halt r) (hle : n ≤ k) : m.run k s = .halt r := by
  obtain ⟨d, rfl⟩ := Nat.exists_eq_add_of_le hle
  rw [run_add, h, Stepped.bind_halt]

/-! ## Results -/

/-- A machine that halts yields its result. -/
theorem Yields.halt (h : m s = .halt r) : m.Yields s r := ⟨1, by rw [run_succ, h]; rfl⟩

/-- What the next state yields. -/
theorem Yields.next (h : m s = .next s') (hs : m.Yields s' r) : m.Yields s r := by
  obtain ⟨n, hn⟩ := hs
  exact ⟨n + 1, by rw [run_succ, h, Stepped.bind_next, hn]⟩

/-- There is one result. -/
theorem Yields.unique {r' : ρ} (h : m.Yields s r) (h' : m.Yields s r') : r = r' := by
  obtain ⟨n, hn⟩ := h
  obtain ⟨k, hk⟩ := h'
  rcases Nat.le_total n k with hle | hle
  · rw [run_of_le hn hle] at hk
    exact Stepped.halt.inj hk
  · rw [run_of_le hk hle] at hn
    exact (Stepped.halt.inj hn).symm

/-- What holds where the machine halts and is carried back over each step holds
where it yields a result. -/
theorem Yields.rec_back {P : σ → Prop} (h : m.Yields s r) (hhalt : ∀ s, m s = .halt r → P s)
    (hnext : ∀ s s', m s = .next s' → m.Yields s' r → P s' → P s) : P s := by
  obtain ⟨n, hn⟩ := h
  induction n generalizing s with
  | zero => cases hn
  | succ n ih =>
      rw [run_succ, Stepped.bind_eq_halt] at hn
      rcases hn with hh | ⟨s', hs', hrun⟩
      · exact hhalt s hh
      · exact hnext s s' hs' ⟨n, hrun⟩ (ih hrun)

/-! ## Invariants and termination -/

/-- What each step keeps, and each result has, a run of any length keeps and has. -/
theorem run_invariant {I : σ → Prop} {Q : ρ → Prop} (hnext : ∀ s s', I s → m s = .next s' → I s')
    (hhalt : ∀ s r, I s → m s = .halt r → Q r) (n : ℕ) (hs : I s) :
    (∀ s', m.run n s = .next s' → I s') ∧ ∀ r, m.run n s = .halt r → Q r := by
  induction n generalizing s with
  | zero =>
      refine ⟨fun s' h => ?_, fun r h => (nomatch h)⟩
      cases h
      exact hs
  | succ n ih =>
      rw [run_succ]
      cases hm : m s with
      | next t => exact ih (hnext s t hs hm)
      | halt r =>
          refine ⟨fun s' h => (nomatch h), fun r' h => ?_⟩
          cases h
          exact hhalt s r hs hm

/-- A measure that each step lowers bounds the run. -/
theorem run_halts {I : σ → Prop} (μ : σ → ℕ)
    (hnext : ∀ s s', I s → m s = .next s' → I s' ∧ μ s' < μ s) (hs : I s) :
    ∃ r, m.run (μ s + 1) s = .halt r := by
  suffices ∀ n s, I s → μ s < n → ∃ r, m.run n s = .halt r from
    this (μ s + 1) s hs (Nat.lt_succ_self _)
  intro n
  induction n with
  | zero => exact fun s _ h => absurd h (Nat.not_lt_zero _)
  | succ n ih =>
      intro s hs hlt
      rw [run_succ]
      cases hm : m s with
      | halt r => exact ⟨r, rfl⟩
      | next t =>
          obtain ⟨ht, hdown⟩ := hnext s t hs hm
          exact ih t ht (by omega)

/-! ## Simulation -/

/-- Some steps lead from one state to another. -/
def Leads (m : Machine σ ρ) (s s' : σ) : Prop := ∃ n, m.run n s = .next s'

theorem Leads.refl (s : σ) : m.Leads s s := ⟨0, rfl⟩

theorem Leads.single (h : m s = .next s') : m.Leads s s' := ⟨1, by rw [run_succ, h]; rfl⟩

theorem Leads.trans {s'' : σ} (h : m.Leads s s') (h' : m.Leads s' s'') : m.Leads s s'' := by
  obtain ⟨n, hn⟩ := h
  obtain ⟨k, hk⟩ := h'
  exact ⟨n + k, by rw [run_add, hn, Stepped.bind_next, hk]⟩

/-- A state yields what a state it leads to yields. -/
theorem Leads.yields (h : m.Leads s s') (h' : m.Yields s' r) : m.Yields s r := by
  obtain ⟨n, hn⟩ := h
  obtain ⟨k, hk⟩ := h'
  exact ⟨n + k, by rw [run_add, hn, Stepped.bind_next, hk]⟩

/-- A machine that answers each step of another with steps to a related state, and
each of its results with a result, yields what the other yields. -/
theorem Yields.simulated {ρ' : Type*} {m' : Machine τ ρ'} {R : σ → τ → Prop} {r' : ρ'}
    (hnext : ∀ s s' t, R s t → m s = .next s' → ∃ t', m'.Leads t t' ∧ R s' t')
    (hhalt : ∀ s t, R s t → m s = .halt r → m'.Yields t r')
    (h : m.Yields s r) {t : τ} (ht : R s t) : m'.Yields t r' := by
  obtain ⟨n, hn⟩ := h
  induction n generalizing s t with
  | zero => cases hn
  | succ n ih =>
      rw [run_succ, Stepped.bind_eq_halt] at hn
      rcases hn with hh | ⟨s', hs', hrun⟩
      · exact hhalt s t ht hh
      · obtain ⟨t', hlead, hR⟩ := hnext s s' t ht hs'
        exact hlead.yields (ih hR hrun)

end Machine

end MobiPerf.Lib
