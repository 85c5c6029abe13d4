import Mathlib.Data.List.Basic
import Mathlib.Tactic.Ring

/-!
# Lib.Tokens — tokens, gaps and fixed-width digits

Two things text formats rest on, over arbitrary alphabets:

* the tokens of a text, its maximal runs without a separator. A `Layout` writes
  tokens with gaps of separators around them; `Layout.tokens_text` reads them
  back;
* the digits of a number in a field of fixed width, most significant first.
  `foldl_digits` reads them back by Horner's rule.
-/

namespace MobiPerf.Lib

variable {α : Type*}

/-- Where a text splits at its first separator. -/
theorem append_sep_inj {c : α} {a b x y : List α} (ha : c ∉ a) (hb : c ∉ b)
    (h : a ++ c :: x = b ++ c :: y) : a = b ∧ x = y := by
  induction a generalizing b with
  | nil =>
      cases b with
      | nil => exact ⟨rfl, (List.cons.inj h).2⟩
      | cons d b =>
          -- the separator would be in the longer part
          have hd := (List.cons.inj h).1
          exact absurd (hd ▸ List.mem_cons_self) hb
  | cons d a ih =>
      cases b with
      | nil =>
          have hd := (List.cons.inj h).1
          exact absurd (hd ▸ List.mem_cons_self) ha
      | cons e b =>
          obtain ⟨hde, hrest⟩ := List.cons.inj h
          have hrec := ih (fun hm => ha (List.mem_cons_of_mem _ hm))
            (fun hm => hb (List.mem_cons_of_mem _ hm)) hrest
          exact ⟨by rw [hde, hrec.1], hrec.2⟩

/-! ## Tokens -/

section Tokens

variable {sep : α → Bool}

/-- The maximal nonempty runs of letters that are no separators. -/
def tokens (sep : α → Bool) (text : List α) : List (List α) :=
  (text.splitOnP sep).filter (· ≠ [])

@[simp] theorem tokens_nil : tokens sep ([] : List α) = [] := by
  simp [tokens]

theorem tokens_cons_sep {b : α} (hb : sep b) (text : List α) :
    tokens sep (b :: text) = tokens sep text := by
  have h := List.splitOnP_append_cons [] text hb
  simp only [List.nil_append, List.splitOnP_nil] at h
  simp [tokens, h]

theorem tokens_append_seps {gap : List α} (hgap : ∀ b ∈ gap, sep b) (text : List α) :
    tokens sep (gap ++ text) = tokens sep text := by
  induction gap with
  | nil => rfl
  | cons b gap ih =>
      rw [List.cons_append, tokens_cons_sep (hgap b List.mem_cons_self)]
      exact ih fun c hc => hgap c (List.mem_cons_of_mem _ hc)

theorem tokens_append_cons {word : List α} (hne : word ≠ [])
    (hword : ∀ b ∈ word, sep b = false) {b : α} (hb : sep b) (text : List α) :
    tokens sep (word ++ b :: text) = word :: tokens sep text := by
  unfold tokens
  rw [List.splitOnP_append_cons_of_forall_mem hword b hb text]
  simp [hne]

/-- A token that ends the text. -/
theorem tokens_word {word : List α} (hne : word ≠ []) (hword : ∀ b ∈ word, sep b = false) :
    tokens sep word = [word] := by
  unfold tokens
  rw [List.splitOnP_eq_singleton hword]
  simp [hne]

/-- How a text is laid out: a gap, then each token with the gap behind it. Only
the last token may do without one. -/
structure Layout (sep : α → Bool) where
  lead : List α
  cells : List (List α × List α)
  lead_sep : ∀ b ∈ lead, sep b
  word_ne : ∀ c ∈ cells, c.1 ≠ []
  word_sep : ∀ c ∈ cells, ∀ b ∈ c.1, sep b = false
  gap_sep : ∀ c ∈ cells, ∀ b ∈ c.2, sep b
  gap_ne : ∀ c ∈ cells.dropLast, c.2 ≠ []

/-- The tokens that are laid out. -/
def Layout.words (l : Layout sep) : List (List α) := l.cells.map (·.1)

/-- The text of a layout. -/
def Layout.text (l : Layout sep) : List α := l.lead ++ l.cells.flatMap fun c => c.1 ++ c.2

theorem tokens_cells {cells : List (List α × List α)} (hne : ∀ c ∈ cells, c.1 ≠ [])
    (hword : ∀ c ∈ cells, ∀ b ∈ c.1, sep b = false) (hgap : ∀ c ∈ cells, ∀ b ∈ c.2, sep b)
    (hgapne : ∀ c ∈ cells.dropLast, c.2 ≠ []) {rest : List α} (hrest : ∀ b ∈ rest, sep b) :
    tokens sep ((cells.flatMap fun c => c.1 ++ c.2) ++ rest) = cells.map (·.1) := by
  have hend : tokens sep rest = [] := by
    have h := tokens_append_seps hrest ([] : List α)
    rwa [List.append_nil, tokens_nil] at h
  induction cells with
  | nil => simpa using hend
  | cons c cells ih =>
      rcases c with ⟨word, gap⟩
      simp only [List.forall_mem_cons] at hne hword hgap
      -- the layout without its first cell
      have hrec : tokens sep ((cells.flatMap fun c => c.1 ++ c.2) ++ rest) =
          cells.map (·.1) := by
        refine ih hne.2 hword.2 hgap.2 fun c hc => hgapne c ?_
        cases cells with
        | nil => cases hc
        | cons d cells => exact List.mem_cons_of_mem _ hc
      cases gap with
      | cons b gap =>
          have hb := hgap.1 b List.mem_cons_self
          have hskip : tokens sep (gap ++ ((cells.flatMap fun c => c.1 ++ c.2) ++ rest)) =
              tokens sep ((cells.flatMap fun c => c.1 ++ c.2) ++ rest) :=
            tokens_append_seps (fun d hd => hgap.1 d (List.mem_cons_of_mem _ hd)) _
          rw [List.flatMap_cons, List.map_cons, List.append_assoc, List.append_assoc,
            List.cons_append, tokens_append_cons hne.1 hword.1 hb, hskip, hrec]
      | nil =>
          -- a token without a gap is the last one
          cases cells with
          | cons d cells => exact absurd rfl (hgapne (word, []) (by simp))
          | nil =>
              cases rest with
              | nil => simpa using tokens_word hne.1 hword.1
              | cons b rest =>
                  have hb := hrest b List.mem_cons_self
                  have hnone : tokens sep rest = [] := by
                    rwa [tokens_cons_sep hb] at hend
                  simpa [hnone] using tokens_append_cons hne.1 hword.1 hb rest

/-- Reading a layout back, whatever separators follow it. -/
theorem Layout.tokens_text (l : Layout sep) {rest : List α} (hrest : ∀ b ∈ rest, sep b) :
    tokens sep (l.text ++ rest) = l.words := by
  rw [Layout.text, List.append_assoc, tokens_append_seps l.lead_sep]
  exact tokens_cells l.word_ne l.word_sep l.gap_sep l.gap_ne hrest

end Tokens

/-! ## Digits -/

/-- The last `k` digits of `n` to the base `b`, most significant first. -/
def digits (b : ℕ) : ℕ → ℕ → List ℕ
  | 0, _ => []
  | k + 1, n => digits b k (n / b) ++ [n % b]

@[simp] theorem length_digits (b k n : ℕ) : (digits b k n).length = k := by
  induction k generalizing n with
  | zero => rfl
  | succ k ih => simp [digits, ih]

theorem digits_lt {b : ℕ} (hb : 0 < b) {k n d : ℕ} (hd : d ∈ digits b k n) : d < b := by
  induction k generalizing n with
  | zero => cases hd
  | succ k ih =>
      rcases List.mem_append.mp hd with hd | hd
      · exact ih hd
      · rw [List.mem_singleton.mp hd]
        exact Nat.mod_lt n hb

/-- A field is its upper part followed by its lower part. -/
theorem digits_add (b j k n : ℕ) :
    digits b (j + k) n = digits b j (n / b ^ k) ++ digits b k n := by
  induction k generalizing n with
  | zero => simp [digits]
  | succ k ih =>
      have hdiv : n / b / b ^ k = n / b ^ (k + 1) := by
        rw [Nat.div_div_eq_div_mul, pow_succ']
      rw [← Nat.add_assoc, digits, ih, hdiv, List.append_assoc, digits]

/-- Horner's rule reads a field back, cut to its width. -/
theorem foldl_digits (b k n r : ℕ) :
    (digits b k n).foldl (fun r d => r * b + d) r = r * b ^ k + n % b ^ k := by
  induction k generalizing n with
  | zero => simp [digits, Nat.mod_one]
  | succ k ih =>
      rw [digits, List.foldl_append, ih]
      have hmod := Nat.mod_mul (a := b) (b := b ^ k) (x := n)
      rw [pow_succ', hmod]
      simp only [List.foldl_cons, List.foldl_nil]
      ring

end MobiPerf.Lib
