import Mathlib.Data.List.Induction
import Mathlib.Data.List.Nodup
import Mathlib.Order.Lattice

/-!
# Lib.Freshest — of each key, the newest element

A list is read once. An element is kept when no kept one has its key, and it
replaces the one that has when it is strictly newer. What is kept at the end is a
sublist with one element of each key that occurs, a newest one.

* `freshest`: the reading, one element at a time (`keepNewer`).
* `IsFreshest`: what it leaves, with the step lemma `IsFreshest.keepNewer`.
-/

namespace MobiPerf.Lib

variable {α κ τ : Type*} [LinearOrder τ] (key : α → κ) (time : α → τ)

/-- Of each key in `l` exactly one element is kept, a newest one. -/
structure IsFreshest (l kept : List α) : Prop where
  sublist : kept.Sublist l
  distinct : (kept.map key).Nodup
  newest : ∀ c ∈ l, ∃ d ∈ kept, key d = key c ∧ time c ≤ time d

section

variable {key time} {l kept : List α}

/-- Elements kept are told apart by their keys. -/
theorem IsFreshest.eq_of_key (h : IsFreshest key time l kept) {c d : α} (hc : c ∈ kept)
    (hd : d ∈ kept) (heq : key c = key d) : c = d :=
  List.inj_on_of_nodup_map h.distinct hc hd heq

theorem isFreshest_nil : IsFreshest key time ([] : List α) [] where
  sublist := List.Sublist.refl []
  distinct := List.nodup_nil
  newest := fun _ hc => absurd hc List.not_mem_nil

end

variable [DecidableEq κ]

/-- One element is read. -/
def keepNewer (kept : List α) (c : α) : List α :=
  match kept.find? fun d => key d = key c with
  | none => kept ++ [c]
  | some d =>
    if time d < time c then (kept.filter fun e => key e ≠ key c) ++ [c] else kept

/-- The newest element of each key, the earlier one of a tie. -/
def freshest (l : List α) : List α := l.foldl (keepNewer key time) []

variable {key time} {l kept : List α}

theorem IsFreshest.keepNewer (h : IsFreshest key time l kept) (c : α) :
    IsFreshest key time (l ++ [c]) (keepNewer key time kept c) := by
  unfold Lib.keepNewer
  split
  · rename_i hfind
    -- a new key
    have hnew : key c ∉ kept.map key := by
      intro hmem
      rcases List.mem_map.mp hmem with ⟨d, hd, heq⟩
      have hnone := List.find?_eq_none.mp hfind d hd
      simp [heq] at hnone
    refine ⟨h.sublist.append (List.Sublist.refl [c]), ?_, fun e he => ?_⟩
    · rw [List.map_append, List.map_singleton]
      exact h.distinct.append (List.nodup_singleton _) (by simpa using hnew)
    · rcases List.mem_append.mp he with he | he
      · rcases h.newest e he with ⟨d, hd, heq, hle⟩
        exact ⟨d, List.mem_append_left _ hd, heq, hle⟩
      · rw [List.mem_singleton.mp he]
        exact ⟨c, List.mem_append_right _ (List.mem_singleton_self c), rfl, le_refl _⟩
  · rename_i d hfind
    have hd : d ∈ kept := List.mem_of_find?_eq_some hfind
    have hkey : key d = key c := by simpa using List.find?_some hfind
    split
    · rename_i hlt
      -- the element kept for this key gives way
      have hsub : (kept.filter fun e => key e ≠ key c).Sublist kept := List.filter_sublist
      refine ⟨(hsub.trans h.sublist).append (List.Sublist.refl [c]), ?_, fun e he => ?_⟩
      · rw [List.map_append, List.map_singleton]
        refine (h.distinct.sublist (hsub.map key)).append (List.nodup_singleton _) ?_
        simp
      · have hself : c ∈ (kept.filter fun e => key e ≠ key c) ++ [c] :=
          List.mem_append_right _ (List.mem_singleton_self c)
        rcases List.mem_append.mp he with he | he
        · rcases h.newest e he with ⟨f, hf, heq, hle⟩
          by_cases hfc : key f = key c
          · have hfd : f = d := h.eq_of_key hf hd (hfc.trans hkey.symm)
            refine ⟨c, hself, hfc.symm.trans heq, ?_⟩
            rw [hfd] at hle
            exact le_trans hle (le_of_lt hlt)
          · exact ⟨f, List.mem_append_left _ (List.mem_filter.mpr ⟨hf, by simpa using hfc⟩),
              heq, hle⟩
        · rw [List.mem_singleton.mp he]
          exact ⟨c, hself, rfl, le_refl _⟩
    · rename_i hlt
      refine ⟨h.sublist.trans (List.sublist_append_left l [c]), h.distinct, fun e he => ?_⟩
      rcases List.mem_append.mp he with he | he
      · exact h.newest e he
      · rw [List.mem_singleton.mp he]
        exact ⟨d, hd, hkey, not_lt.mp hlt⟩

theorem freshest_append (l : List α) (c : α) :
    freshest key time (l ++ [c]) = keepNewer key time (freshest key time l) c := by
  unfold freshest
  rw [List.foldl_append, List.foldl_cons, List.foldl_nil]

theorem freshest_isFreshest (l : List α) : IsFreshest key time l (freshest key time l) := by
  induction l using List.reverseRecOn with
  | nil => exact isFreshest_nil
  | append_singleton l c ih =>
      rw [freshest_append]
      exact ih.keepNewer c

/-- Exactly one element with the key of `c` is kept, and none in `l` is newer. -/
theorem IsFreshest.filter_eq (h : IsFreshest key time l kept) {c : α} (hc : c ∈ l) :
    ∃ d ∈ kept, (kept.filter fun e => key e = key c) = [d] ∧
      ∀ e ∈ l, key e = key c → time e ≤ time d := by
  rcases h.newest c hc with ⟨d, hd, hkey, _⟩
  refine ⟨d, hd, ?_, fun e he heq => ?_⟩
  · have hnodup : (kept.filter fun e => key e = key c).Nodup :=
      (List.Nodup.of_map key h.distinct).filter _
    have hall : ∀ e, e ∈ (kept.filter fun e => key e = key c) ↔ e ∈ [d] := by
      intro e
      rw [List.mem_filter, List.mem_singleton]
      constructor
      · rintro ⟨he, heq⟩
        exact h.eq_of_key he hd ((of_decide_eq_true heq).trans hkey.symm)
      · rintro rfl
        exact ⟨hd, decide_eq_true hkey⟩
    exact List.perm_singleton.mp
      ((List.perm_ext_iff_of_nodup hnodup (List.nodup_singleton d)).mpr hall)
  · rcases h.newest e he with ⟨f, hf, hfe, hle⟩
    have hfd : f = d := h.eq_of_key hf hd ((hfe.trans heq).trans hkey.symm)
    rw [← hfd]
    exact hle

end MobiPerf.Lib
