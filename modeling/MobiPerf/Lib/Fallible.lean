import Mathlib.Data.List.Basic

/-!
# Lib.Fallible — loops that may stop with an error

A loop of a program that can halt in its body is `List.foldlM` in `Except ε`.
The first rules take such a computation apart: a bind that returned came from
two parts that returned, and what each iteration preserves, a loop that
returned preserves. They say nothing about a loop that halted; `Ends` speaks of
both ways to end, with one rule for each way to build a computation. A log
(`after`, `foldLog`) lists what a computation does on its way, up to where it
halts.
-/

namespace MobiPerf.Lib

universe u v

variable {ε : Type u} {α β σ : Type v}

/-- A bind that returned: both parts returned. -/
theorem except_bind_eq_ok {x : Except ε α} {f : α → Except ε β} {b : β} :
    (x >>= f) = .ok b ↔ ∃ a, x = .ok a ∧ f a = .ok b := by
  cases x with
  | error e => simp [bind, Except.bind]
  | ok a => simp [bind, Except.bind]

/-- A bind that halted: one of its parts did. -/
theorem except_bind_eq_error {x : Except ε α} {f : α → Except ε β} {e : ε} :
    (x >>= f) = .error e ↔ x = .error e ∨ ∃ a, x = .ok a ∧ f a = .error e := by
  cases x with
  | error e' => simp [bind, Except.bind]
  | ok a => simp [bind, Except.bind]

/-- A sequence succeeds when both of its parts do. -/
theorem exists_bind_eq_ok {x : Except ε α} {f : α → Except ε β} :
    (∃ b, (x >>= f) = .ok b) ↔ ∃ a, x = .ok a ∧ ∃ b, f a = .ok b := by
  constructor
  · rintro ⟨b, h⟩
    obtain ⟨a, hx, hf⟩ := except_bind_eq_ok.mp h
    exact ⟨a, hx, b, hf⟩
  · rintro ⟨a, hx, b, hf⟩
    exact ⟨b, except_bind_eq_ok.mpr ⟨a, hx, hf⟩⟩

/-- A closed computation, evaluated: it returned, and what it returned passes
the test. -/
theorem exists_ok_of_any {x : Except ε α} {p : α → Bool} (h : x.toOption.any p = true) :
    ∃ a, x = .ok a ∧ p a = true := by
  cases x with
  | error e => simp [Except.toOption] at h
  | ok a => exact ⟨a, rfl, by simpa [Except.toOption] using h⟩

/-- What holds of every value returned, when it depends on a part of the value
and that part is known beforehand. -/
theorem forall_ok_iff {x : Except ε α} {g : α → β} {o : Option β}
    (h : x.toOption.map g = o) {P : β → Prop} :
    (∀ a, x = .ok a → P (g a)) ↔ ∀ b, o = some b → P b := by
  subst h
  cases x with
  | error e => simp [Except.toOption]
  | ok a => simp [Except.toOption]

/-- Invariant rule for a fallible loop. -/
theorem foldlM_preserves {P : σ → Prop} {f : σ → α → Except ε σ}
    (hstep : ∀ s a s', P s → f s a = .ok s' → P s') {l : List α} {s s' : σ}
    (h : P s) (hrun : l.foldlM f s = .ok s') : P s' := by
  induction l generalizing s with
  | nil =>
      have hs : s = s' := Except.ok.inj hrun
      exact hs ▸ h
  | cons a l ih =>
      rw [List.foldlM_cons] at hrun
      rcases except_bind_eq_ok.mp hrun with ⟨t, hbody, hrest⟩
      exact ih (hstep s a t h hbody) hrest

/-- Invariant rule for a fallible loop over `0, …, n - 1`: the invariant may
speak of the iterations done. -/
theorem foldlM_range_induct {P : ℕ → σ → Prop} {f : σ → ℕ → Except ε σ} {n : ℕ}
    (hstep : ∀ k s s', k < n → P k s → f s k = .ok s' → P (k + 1) s') {s s' : σ}
    (h : P 0 s) (hrun : (List.range n).foldlM f s = .ok s') : P n s' := by
  induction n generalizing s' with
  | zero =>
      have hs : s = s' := Except.ok.inj hrun
      exact hs ▸ h
  | succ n ih =>
      rw [List.range_succ, List.foldlM_append] at hrun
      rcases except_bind_eq_ok.mp hrun with ⟨t, hfirst, hlast⟩
      have ht : P n t :=
        ih (fun k s s' hk => hstep k s s' (Nat.lt_succ_of_lt hk)) hfirst
      have hbody : f t n = .ok s' := by simpa using hlast
      exact hstep n t s' (Nat.lt_succ_self n) ht hbody

/-- The same rule for a loop that cannot stop. -/
theorem foldl_range_induct {P : ℕ → σ → Prop} {f : σ → ℕ → σ} {n : ℕ}
    (hstep : ∀ k s, k < n → P k s → P (k + 1) (f s k)) {s : σ}
    (h : P 0 s) : P n ((List.range n).foldl f s) := by
  induction n with
  | zero => exact h
  | succ n ih =>
      rw [List.range_succ, List.foldl_append]
      have hn := ih fun k s hk => hstep k s (Nat.lt_succ_of_lt hk)
      exact hstep n _ (Nat.lt_succ_self n) hn

/-- A loop that only checks: it returns when every check does. -/
theorem forM_eq_ok {f : α → Except ε PUnit} {l : List α} :
    forM l f = .ok ⟨⟩ ↔ ∀ a ∈ l, f a = .ok ⟨⟩ := by
  induction l with
  | nil => simp [pure, Except.pure]
  | cons a l ih =>
      rw [List.forM_cons, except_bind_eq_ok, List.forall_mem_cons, ← ih]
      constructor
      · rintro ⟨⟨⟩, hhead, hrest⟩
        exact ⟨hhead, hrest⟩
      · rintro ⟨hhead, hrest⟩
        exact ⟨⟨⟩, hhead, hrest⟩

/-- A loop that maps returns when each of its rounds does. -/
theorem exists_mapM_eq_ok {f : α → Except ε β} {l : List α} :
    (∃ bs, l.mapM f = .ok bs) ↔ ∀ a ∈ l, ∃ b, f a = .ok b := by
  induction l with
  | nil => simp [pure, Except.pure]
  | cons a l ih =>
      rw [List.mapM_cons, List.forall_mem_cons, exists_bind_eq_ok, ← ih]
      constructor
      · rintro ⟨b, hb, hrest⟩
        obtain ⟨bs, hbs, -⟩ := exists_bind_eq_ok.mp hrest
        exact ⟨⟨b, hb⟩, bs, hbs⟩
      · rintro ⟨⟨b, hb⟩, bs, hbs⟩
        exact ⟨b, hb, exists_bind_eq_ok.mpr ⟨bs, hbs, b :: bs, rfl⟩⟩

/-! ## Loops that collect -/

section Collect

/-- One round of a loop that gathers what its body returns, when it returns
something. -/
def collectStep (f : α → Except ε (Option β)) (collected : List β) (a : α) : Except ε (List β) := do
  match ← f a with
  | some b => pure (collected ++ [b])
  | none => pure collected

variable {f : α → Except ε (Option β)}

/-- Such a loop returns when all its rounds do, and then holds what they
returned, in order. -/
theorem foldlM_collect_eq_ok {l : List α} {collected result : List β} :
    l.foldlM (collectStep f) collected = .ok result ↔
      (∀ a ∈ l, ∃ o, f a = .ok o) ∧
        result = collected ++ l.filterMap fun a => (f a).toOption.join := by
  induction l generalizing collected with
  | nil => simp [pure, Except.pure, eq_comm]
  | cons a l ih =>
      rw [List.foldlM_cons, List.filterMap_cons, List.forall_mem_cons, and_assoc]
      cases hround : f a with
      | error e => simp [collectStep, hround, bind, Except.bind]
      | ok o =>
          cases o with
          | none =>
              have hstep : collectStep f collected a = .ok collected := by
                simp [collectStep, hround, bind, Except.bind, pure, Except.pure]
              rw [hstep]
              show l.foldlM (collectStep f) collected = .ok result ↔ _
              rw [ih]
              simp [Except.toOption]
          | some b =>
              have hstep : collectStep f collected a = .ok (collected ++ [b]) := by
                simp [collectStep, hround, bind, Except.bind, pure, Except.pure]
              rw [hstep]
              show l.foldlM (collectStep f) (collected ++ [b]) = .ok result ↔ _
              rw [ih]
              simp [Except.toOption]

/-- Two selections, one of which only leaves out more, are the same list only
when they are the same on every element. -/
theorem filterMap_eq_filterMap_iff {f g : α → Option β} {l : List α}
    (h : ∀ a ∈ l, f a = none ∨ f a = g a) :
    l.filterMap f = l.filterMap g ↔ ∀ a ∈ l, f a = g a := by
  have hshorter : ∀ {l : List α}, (∀ a ∈ l, f a = none ∨ f a = g a) →
      (l.filterMap f).length ≤ (l.filterMap g).length := by
    intro l hl
    induction l with
    | nil => exact Nat.le_refl _
    | cons a l ih =>
        have hrest := ih fun b hb => hl b (List.mem_cons_of_mem a hb)
        rw [List.filterMap_cons, List.filterMap_cons]
        rcases hl a List.mem_cons_self with hnone | hsame
        · rw [hnone]
          cases g a with
          | none => exact hrest
          | some b => exact Nat.le_trans hrest (Nat.le_succ _)
        · rw [hsame]
          cases g a with
          | none => exact hrest
          | some b => exact Nat.succ_le_succ hrest
  constructor
  · intro heq
    induction l with
    | nil => exact fun a ha => absurd ha List.not_mem_nil
    | cons a l ih =>
        have hl : ∀ b ∈ l, f b = none ∨ f b = g b := fun b hb => h b (List.mem_cons_of_mem a hb)
        rw [List.filterMap_cons, List.filterMap_cons] at heq
        have hhead : f a = g a := by
          rcases h a List.mem_cons_self with hnone | hsame
          · cases hg : g a with
            | none => exact hnone
            | some b =>
                -- the longer selection starts with one more element
                rw [hnone, hg] at heq
                have hlength := congrArg List.length heq
                have hle := hshorter hl
                simp only [List.length_cons] at hlength
                omega
          · exact hsame
        intro b hb
        rcases List.mem_cons.mp hb with rfl | hb
        · exact hhead
        · refine ih hl ?_ b hb
          rw [hhead] at heq
          cases hg : g a with
          | none => simpa only [hg] using heq
          | some c =>
              rw [hg] at heq
              exact (List.cons.inj heq).2
  · intro hsame
    exact List.filterMap_congr hsame

end Collect

/-! ## Both ways to end -/

/-- What the computation returns satisfies `P`, and what it halts with satisfies
`Q`. -/
def Ends (x : Except ε α) (P : α → Prop) (Q : ε → Prop) : Prop :=
  (∀ a, x = .ok a → P a) ∧ ∀ e, x = .error e → Q e

section Ends

variable {Q : ε → Prop}

/-- A success ends as its value says. -/
theorem ends_ok {P : α → Prop} {a : α} (h : P a) : Ends (.ok a) P Q := by
  constructor
  · intro b heq
    cases heq
    exact h
  · intro e heq
    cases heq

/-- A failure ends as its error says. -/
theorem ends_error {P : α → Prop} {e : ε} (h : Q e) : Ends (.error e) P Q := by
  constructor
  · intro a heq
    cases heq
  · intro e' heq
    cases heq
    exact h

/-- A test, by its branches. -/
theorem ends_ite {P : α → Prop} {c : Prop} [Decidable c] {x y : Except ε α}
    (hx : c → Ends x P Q) (hy : ¬ c → Ends y P Q) : Ends (if c then x else y) P Q := by
  split
  · exact hx ‹_›
  · exact hy ‹_›

/-- Less may be asked of the value. -/
theorem Ends.mono {P P' : α → Prop} {x : Except ε α} (h : Ends x P Q)
    (hP : ∀ a, P a → P' a) : Ends x P' Q :=
  ⟨fun a heq => hP a (h.1 a heq), h.2⟩

/-- The first part may be assumed to have returned what it did. -/
theorem Ends.bind {P : α → Prop} {P' : β → Prop} {x : Except ε α} {f : α → Except ε β}
    (hx : Ends x P Q) (hf : ∀ a, x = .ok a → P a → Ends (f a) P' Q) :
    Ends (x >>= f) P' Q := by
  cases x with
  | error e => exact ends_error (hx.2 e rfl)
  | ok a => exact hf a rfl (hx.1 a rfl)

/-- What the computation halts with, when it halts, satisfies `Q`. -/
def FailsOnly (Q : ε → Prop) (x : Except ε α) : Prop := ∀ e, x = .error e → Q e

/-- A success does not fail. -/
theorem failsOnly_ok {a : α} : FailsOnly Q (.ok a : Except ε α) := by
  intro e heq
  cases heq

/-- A failure does, with its error. -/
theorem failsOnly_error {e : ε} : FailsOnly Q (.error e : Except ε α) ↔ Q e := by
  constructor
  · intro h
    exact h e rfl
  · intro h e' heq
    cases heq
    exact h

/-- Exactly: the first part halts as it should, and so does the second whenever
the first returns. -/
theorem failsOnly_bind {x : Except ε α} {f : α → Except ε β} :
    FailsOnly Q (x >>= f) ↔ FailsOnly Q x ∧ ∀ a, x = .ok a → FailsOnly Q (f a) := by
  cases x with
  | error e => simp [FailsOnly, bind, Except.bind]
  | ok a => simp [FailsOnly, bind, Except.bind]

/-- Nothing is asked of the value. -/
theorem failsOnly_iff_ends {x : Except ε α} : FailsOnly Q x ↔ Ends x (fun _ => True) Q := by
  simp [FailsOnly, Ends]

/-- Exactly, and what is returned with it. -/
theorem ends_bind_iff {P : β → Prop} {x : Except ε α} {f : α → Except ε β} :
    Ends (x >>= f) P Q ↔ FailsOnly Q x ∧ ∀ a, x = .ok a → Ends (f a) P Q := by
  cases x with
  | error e => simp [Ends, FailsOnly, bind, Except.bind]
  | ok a => simp [FailsOnly, bind, Except.bind]

/-- A loop fails as its steps do. -/
theorem failsOnly_foldlM {f : σ → α → Except ε σ} (hstep : ∀ s a, FailsOnly Q (f s a))
    {l : List α} {s : σ} : FailsOnly Q (l.foldlM f s) := by
  induction l generalizing s with
  | nil => exact failsOnly_ok
  | cons a l ih =>
      rw [List.foldlM_cons]
      exact failsOnly_bind.mpr ⟨hstep s a, fun _ _ => ih⟩

/-- It keeps what its steps keep. -/
theorem ends_foldlM {P : σ → Prop} {f : σ → α → Except ε σ}
    (hstep : ∀ s a, P s → Ends (f s a) P Q) {l : List α} {s : σ} (h : P s) :
    Ends (l.foldlM f s) P Q := by
  induction l generalizing s with
  | nil => exact ends_ok h
  | cons a l ih =>
      rw [List.foldlM_cons]
      exact (hstep s a h).bind fun t _ ht => ih ht

/-- The same for a loop over `0, …, n - 1`. -/
theorem ends_foldlM_range {P : ℕ → σ → Prop} {f : σ → ℕ → Except ε σ} {n : ℕ}
    (hstep : ∀ k s, k < n → P k s → Ends (f s k) (P (k + 1)) Q) {s : σ} (h : P 0 s) :
    Ends ((List.range n).foldlM f s) (P n) Q := by
  induction n with
  | zero => exact ends_ok h
  | succ n ih =>
      rw [List.range_succ, List.foldlM_append]
      have hfirst := ih fun k s hk => hstep k s (Nat.lt_succ_of_lt hk)
      refine hfirst.bind fun t _ ht => ?_
      rw [List.foldlM_cons]
      exact (hstep n t (Nat.lt_succ_self n) ht).bind fun _ _ hlast => ends_ok hlast

end Ends

/-! ## Logs -/

section Log

variable {γ ι : Type*}

/-- What is logged once `x` has returned: nothing, when it halts. -/
def after (x : Except ε α) (log : α → List γ) : List γ :=
  match x with
  | .ok a => log a
  | .error _ => []

/-- What a loop logs, given what its body does. -/
def foldLog (f : σ → ι → Except ε σ) (log : σ → ι → List γ) : List ι → σ → List γ
  | [], _ => []
  | a :: l, s => log s a ++ after (f s a) (foldLog f log l)

/-- What is logged after a computation is logged of its value. -/
theorem forall_mem_after {x : Except ε α} {log : α → List γ} {Q : γ → Prop} :
    (∀ u ∈ after x log, Q u) ↔ ∀ a, x = .ok a → ∀ u ∈ log a, Q u := by
  cases x with
  | error e => simp [after]
  | ok a => simp [after]

theorem after_bind (x : Except ε α) (f : α → Except ε β) (log : β → List γ) :
    after (x >>= f) log = after x fun a => after (f a) log := by
  cases x with
  | error e => rfl
  | ok a => rfl

/-- Two logs, one after the other. -/
theorem after_append (x : Except ε α) (log log' : α → List γ) :
    after x (fun a => log a ++ log' a) = after x log ++ after x log' := by
  cases x with
  | error e => rfl
  | ok a => rfl

/-- The log of a loop in two parts. -/
theorem foldLog_append (f : σ → ι → Except ε σ) (log : σ → ι → List γ) (l l' : List ι) (s : σ) :
    foldLog f log (l ++ l') s = foldLog f log l s ++ after (l.foldlM f s) (foldLog f log l') := by
  induction l generalizing s with
  | nil => rfl
  | cons a l ih =>
      have hrest : foldLog f log (l ++ l') = fun s =>
          foldLog f log l s ++ after (l.foldlM f s) (foldLog f log l') := funext ih
      rw [List.foldlM_cons, after_bind, List.cons_append]
      simp only [foldLog, hrest, after_append, List.append_assoc]

/-- Rule for the log of a loop over `0, …, n - 1`. -/
theorem foldLog_range_induct {P : ℕ → σ → Prop} {Q : γ → Prop} {f : σ → ℕ → Except ε σ}
    {log : σ → ℕ → List γ} {n : ℕ}
    (hstep : ∀ k s, k < n → P k s →
      (∀ u ∈ log s k, Q u) ∧ ∀ s', f s k = .ok s' → P (k + 1) s')
    {s : σ} (h : P 0 s) : ∀ u ∈ foldLog f log (List.range n) s, Q u := by
  induction n with
  | zero => exact fun u hu => absurd hu List.not_mem_nil
  | succ n ih =>
      intro u hu
      rw [List.range_succ, foldLog_append, List.mem_append] at hu
      rcases hu with hu | hu
      · exact ih (fun k s hk => hstep k s (Nat.lt_succ_of_lt hk)) u hu
      · refine forall_mem_after.mpr (fun t hrun => ?_) u hu
        have ht : P n t := foldlM_range_induct
          (fun k s s' hk hs hbody => (hstep k s (Nat.lt_succ_of_lt hk) hs).2 s' hbody) h hrun
        simp only [foldLog, List.mem_append]
        rintro v (hv | hv)
        · exact (hstep n t (Nat.lt_succ_self n) ht).1 v hv
        · exact forall_mem_after.mpr (fun _ _ _ hw => absurd hw List.not_mem_nil) v hv

end Log

end MobiPerf.Lib
