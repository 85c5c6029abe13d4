import Mathlib.Data.List.Basic
import Mathlib.Data.List.Induction
import Mathlib.Logic.Function.Basic

/-!
# Lib.FlatRows — rows of fixed width in one array

`r` rows of `w` cells lie in one array, row `f` from cell `w * f` on. Items are
appended to the rows one by one, and nothing tests whether a row is full: its next
cell is then one of the row behind it. Only an access past the whole array is caught
(`none`). A cell keeps the row it was written for beside the item.

* `exact_iff`: after a list of appends every row can be read back, with what was
  wanted in it, if and only if that is what was appended to it, and no row reaches
  into a row that is in use or past the array.
-/

namespace MobiPerf.Lib

/-- How many items each row has taken, and the cells of the array. -/
structure FlatRows (α : Type*) where
  count : ℕ → ℕ
  cells : ℕ → Option (ℕ × α)

namespace FlatRows

variable {α : Type*} {w r : ℕ}

def empty : FlatRows α where
  count _ := 0
  cells _ := none

/-- An item is written behind the last one of its row. -/
def write (w f : ℕ) (a : α) (t : FlatRows α) : FlatRows α where
  count := Function.update t.count f (t.count f + 1)
  cells := Function.update t.cells (w * f + t.count f) (some (f, a))

def append (w r : ℕ) (f : ℕ) (a : α) (t : FlatRows α) : Option (FlatRows α) :=
  if f < r ∧ w * f + t.count f < w * r then some (t.write w f a) else none

def appendAll (w r : ℕ) (items : List (ℕ × α)) : Option (FlatRows α) :=
  items.foldlM (fun t x => append w r x.1 x.2 t) empty

/-- The items for row `f`, in order. -/
def row (items : List (ℕ × α)) (f : ℕ) : List α :=
  items.filterMap fun x => if x.1 = f then some x.2 else none

/-- Each row holds what it should, from its first cell on. -/
structure Exact (w r : ℕ) (rows : ℕ → List α) (t : FlatRows α) : Prop where
  count : ∀ f < r, t.count f = (rows f).length
  cells : ∀ f < r, ∀ k a, (rows f)[k]? = some a → t.cells (w * f + k) = some (f, a)

/-- `n f` items for each row `f` stay inside the array and out of the rows in use. -/
structure Apart (w r : ℕ) (n : ℕ → ℕ) : Prop where
  fits : ∀ f < r, w * f + n f ≤ w * r
  apart : ∀ f g, f < g → g < r → 0 < n g → w * f + n f ≤ w * g

/-- Shorter rows are apart as well. -/
theorem Apart.mono {n n' : ℕ → ℕ} (h : Apart w r n) (hle : ∀ f, n' f ≤ n f) : Apart w r n' where
  fits f hf := Nat.le_trans (Nat.add_le_add_left (hle f) _) (h.fits f hf)
  apart f g hfg hg hpos :=
    Nat.le_trans (Nat.add_le_add_left (hle f) _)
      (h.apart f g hfg hg (Nat.lt_of_lt_of_le hpos (hle g)))

theorem row_append_self (items : List (ℕ × α)) (f : ℕ) (a : α) :
    row (items ++ [(f, a)]) f = row items f ++ [a] := by
  simp [row]

theorem row_append_of_ne (items : List (ℕ × α)) {f g : ℕ} (a : α) (h : g ≠ f) :
    row (items ++ [(g, a)]) f = row items f := by
  simp [row, h]

/-- Rows grow at their end. -/
theorem row_isPrefix (items : List (ℕ × α)) (x : ℕ × α) (f : ℕ) :
    row items f <+: row (items ++ [x]) f := by
  unfold row
  rw [List.filterMap_append]
  exact List.prefix_append _ _

/-- What is in a row stays there. -/
theorem row_getElem?_append {items : List (ℕ × α)} {f k : ℕ} {a : α} (x : ℕ × α)
    (h : (row items f)[k]? = some a) : (row (items ++ [x]) f)[k]? = some a := by
  rcases row_isPrefix items x f with ⟨rest, hrest⟩
  rw [← hrest, List.getElem?_append_left (List.getElem?_eq_some_iff.mp h).1]
  exact h

/-- Items are appended one by one. -/
theorem appendAll_append (items : List (ℕ × α)) (x : ℕ × α) :
    appendAll w r (items ++ [x]) = (appendAll w r items).bind (append w r x.1 x.2) := by
  simp [appendAll, List.foldlM_append]

section Write

variable (f : ℕ) (a : α) (t : FlatRows α)

theorem write_count_self : (t.write w f a).count f = t.count f + 1 := Function.update_self _ _ _

theorem write_count_of_ne {g : ℕ} (h : g ≠ f) : (t.write w f a).count g = t.count g :=
  Function.update_of_ne h _ _

theorem write_cells_self : (t.write w f a).cells (w * f + t.count f) = some (f, a) :=
  Function.update_self _ _ _

theorem write_cells_of_ne {c : ℕ} (h : c ≠ w * f + t.count f) :
    (t.write w f a).cells c = t.cells c :=
  Function.update_of_ne h _ _

end Write

/-- An append that succeeds has found a cell. -/
theorem append_eq_some {f : ℕ} {a : α} {t t' : FlatRows α} (h : append w r f a t = some t') :
    (f < r ∧ w * f + t.count f < w * r) ∧ t' = t.write w f a := by
  unfold append at h
  split at h
  · rename_i hbound
    exact ⟨hbound, (Option.some.inj h).symm⟩
  · cases h

/-! ## What the appends leave -/

/-- What is in a cell was appended to its row, at that place. -/
structure Stored (w r : ℕ) (items : List (ℕ × α)) (t : FlatRows α) : Prop where
  range : ∀ x ∈ items, x.1 < r
  count : ∀ f, t.count f = (row items f).length
  inside : ∀ f, row items f ≠ [] → w * f + (row items f).length ≤ w * r
  owner : ∀ c f a, t.cells c = some (f, a) → ∃ k, c = w * f + k ∧ (row items f)[k]? = some a

/-- So the cells hold one item more. -/
theorem Stored.append {items : List (ℕ × α)} {f : ℕ} {a : α} {t t' : FlatRows α}
    (h : Stored w r items t) (happend : append w r f a t = some t') :
    Stored w r (items ++ [(f, a)]) t' := by
  obtain ⟨⟨hf, hcell⟩, rfl⟩ := append_eq_some happend
  refine ⟨?_, ?_, ?_, ?_⟩
  · intro x hx
    rcases List.mem_append.mp hx with hx | hx
    · exact h.range x hx
    · rw [List.mem_singleton.mp hx]
      exact hf
  · -- only row `f` grows
    intro g
    by_cases hg : f = g
    · subst hg
      rw [row_append_self, write_count_self, h.count, List.length_append]
      rfl
    · rw [row_append_of_ne _ _ hg, write_count_of_ne _ _ _ (Ne.symm hg), h.count]
  · -- the item was appended, so its cell was in the array
    intro g hne
    by_cases hg : f = g
    · subst hg
      rw [row_append_self, List.length_append, ← h.count]
      exact hcell
    · rw [row_append_of_ne _ _ hg] at hne ⊢
      exact h.inside g hne
  · -- the cell written belongs to row `f`; the others belong where they did
    intro c g b hb
    by_cases hc : c = w * f + t.count f
    · subst hc
      rw [write_cells_self] at hb
      cases hb
      refine ⟨t.count f, rfl, ?_⟩
      rw [row_append_self, h.count, List.getElem?_concat_length]
    · rw [write_cells_of_ne _ _ _ hc] at hb
      rcases h.owner c g b hb with ⟨k, hk, hrow⟩
      exact ⟨k, hk, row_getElem?_append _ hrow⟩

/-- And so they do for all. -/
theorem stored_of_appendAll {items : List (ℕ × α)} {t : FlatRows α}
    (h : appendAll w r items = some t) : Stored w r items t := by
  induction items using List.reverseRecOn generalizing t with
  | nil =>
    cases h
    exact ⟨by simp, fun f => rfl, fun f hne => absurd rfl hne, fun c f a hc => by cases hc⟩
  | append_singleton items x ih =>
    rw [appendAll_append] at h
    rcases Option.bind_eq_some_iff.mp h with ⟨t₀, ht₀, happend⟩
    exact (ih ht₀).append happend

/-- Rows that are apart are all there in the end. -/
theorem exact_appendAll {items : List (ℕ × α)} (hrange : ∀ x ∈ items, x.1 < r)
    (hapart : Apart w r fun f => (row items f).length) :
    ∃ t, appendAll w r items = some t ∧ Exact w r (row items) t := by
  induction items using List.reverseRecOn with
  | nil => exact ⟨empty, rfl, fun f _ => rfl, fun f _ k a hk => by simp [row] at hk⟩
  | append_singleton items x ih =>
    rcases x with ⟨f, a⟩
    have hf : f < r := hrange (f, a) (by simp)
    have hmono : Apart w r fun f => (row items f).length :=
      hapart.mono fun g => (row_isPrefix items (f, a) g).length_le
    obtain ⟨t, ht, hexact⟩ := ih (fun x hx => hrange x (List.mem_append_left _ hx)) hmono
    have hcount : t.count f = (row items f).length := hexact.count f hf
    have hlength : (row (items ++ [(f, a)]) f).length = t.count f + 1 := by
      rw [row_append_self, List.length_append, hcount]
      rfl
    have hcell : w * f + t.count f < w * r := by
      have hfits := hapart.fits f hf
      omega
    refine ⟨t.write w f a, ?_, ?_, ?_⟩
    · rw [appendAll_append, ht, Option.bind_some, FlatRows.append, if_pos ⟨hf, hcell⟩]
    · intro g hg
      by_cases hfg : f = g
      · subst hfg
        rw [write_count_self, hlength]
      · rw [write_count_of_ne _ _ _ (Ne.symm hfg), row_append_of_ne _ _ hfg, hexact.count g hg]
    · intro g hg k b hk
      by_cases hfg : f = g
      · subst hfg
        rw [row_append_self] at hk
        by_cases hlast : k = t.count f
        · subst hlast
          rw [hcount, List.getElem?_concat_length] at hk
          cases hk
          exact write_cells_self _ _ _
        · have hlt : k < (row items f).length := by
            have hlt' := (List.getElem?_eq_some_iff.mp hk).1
            simp only [List.length_append, List.length_singleton] at hlt'
            omega
          rw [List.getElem?_append_left hlt] at hk
          have hne : w * f + k ≠ w * f + t.count f := by omega
          exact (write_cells_of_ne _ _ _ hne).trans (hexact.cells f hg k b hk)
      · rw [row_append_of_ne _ _ hfg] at hk
        have hlt : k < (row items g).length := (List.getElem?_eq_some_iff.mp hk).1
        have hg' : (row (items ++ [(f, a)]) g).length = (row items g).length := by
          rw [row_append_of_ne _ _ hfg]
        -- the new cell is out of the cells of row `g`
        have hne : w * g + k ≠ w * f + t.count f := by
          rcases Nat.lt_or_gt_of_ne hfg with hlt' | hgt
          · have h := hapart.apart f g hlt' hg (by omega)
            omega
          · have h := hapart.apart g f hgt hf (by omega)
            omega
        exact (write_cells_of_ne _ _ _ hne).trans (hexact.cells g hg k b hk)

/-- What is wanted is there if and only if it was appended, with the rows apart. -/
theorem exact_iff {items : List (ℕ × α)} {rows : ℕ → List α} :
    (∃ t, appendAll w r items = some t ∧ Exact w r rows t) ↔
      ((∀ x ∈ items, x.1 < r) ∧ ∀ f < r, row items f = rows f) ∧
        Apart w r fun f => (rows f).length := by
  constructor
  · rintro ⟨t, ht, hexact⟩
    have hstored := stored_of_appendAll ht
    have hrows : ∀ f < r, row items f = rows f := by
      intro f hf
      have hlength : (rows f).length = (row items f).length :=
        (hexact.count f hf).symm.trans (hstored.count f)
      refine List.ext_getElem? fun k => ?_
      cases hk : (rows f)[k]? with
      | none =>
        rw [List.getElem?_eq_none_iff] at hk ⊢
        omega
      | some a =>
        rcases hstored.owner _ f a (hexact.cells f hf k a hk) with ⟨k', hk', hrow⟩
        rwa [Nat.add_left_cancel hk']
    refine ⟨⟨hstored.range, hrows⟩, ?_, ?_⟩
    · intro f hf
      by_cases hnil : rows f = []
      · rw [hnil]
        exact Nat.mul_le_mul_left w (Nat.le_of_lt hf)
      · rw [← hrows f hf] at hnil ⊢
        exact hstored.inside f hnil
    · intro f g hfg hg hpos
      by_contra hover
      have hf : f < r := Nat.lt_trans hfg hg
      have hle : w * f ≤ w * g := Nat.mul_le_mul_left w (Nat.le_of_lt hfg)
      -- the first cell of row `g` is one of row `f`
      have hk : w * g - w * f < (rows f).length := by omega
      have hcell : w * f + (w * g - w * f) = w * g + 0 := by omega
      have hown := hexact.cells f hf _ _ (List.getElem?_eq_getElem hk)
      have hother := hexact.cells g hg _ _ (List.getElem?_eq_getElem hpos)
      rw [hcell, hother] at hown
      have hsame : g = f := congrArg Prod.fst (Option.some.inj hown)
      exact absurd (hsame ▸ hfg) (Nat.lt_irrefl _)
  · rintro ⟨⟨hrange, hrows⟩, hapart⟩
    have hapart' : Apart w r fun f => (row items f).length := by
      refine ⟨fun f hf => ?_, fun f g hfg hg => ?_⟩
      · rw [hrows f hf]
        exact hapart.fits f hf
      · rw [hrows f (Nat.lt_trans hfg hg), hrows g hg]
        exact hapart.apart f g hfg hg
    obtain ⟨t, ht, hexact⟩ := exact_appendAll hrange hapart'
    refine ⟨t, ht, ?_, ?_⟩
    · intro f hf
      rw [hexact.count f hf, hrows f hf]
    · intro f hf k a hk
      refine hexact.cells f hf k a ?_
      rwa [hrows f hf]

end FlatRows

end MobiPerf.Lib
