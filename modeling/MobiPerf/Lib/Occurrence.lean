import Mathlib.Data.List.Basic
import Mathlib.Data.List.Nodup
import Mathlib.Data.List.Induction
import Mathlib.Data.List.Perm.Subperm

/-!
# Lib.Occurrence — where a key stands in a list: nowhere, once, or several times

A side table over a list of keys often stores, for each key, only a marker:
no entry has it, exactly the entry at index `i` has it, or several have it.
`slotOf` is that marker as a function of the list, and `Enumerates` says that
a second list names the keys that occur, each once. Both come with the rule
for appending one key, which is all an incremental build of such a table
needs, and with their characterisations by indices.
-/

namespace MobiPerf.Lib

/-- What an occurrence table says about one key. -/
inductive Slot where
  | none
  | one (i : ℕ)
  | several
deriving DecidableEq, Repr

variable {α : Type*}

/-- The marker of `k` for the list `ks`. -/
def slotOf [DecidableEq α] (ks : List α) (k : α) : Slot :=
  if ks.count k = 0 then .none
  else if ks.count k = 1 then .one (ks.idxOf k)
  else .several

/-- `l` names the elements of `ks`, each exactly once. -/
def Enumerates (l ks : List α) : Prop :=
  l.Nodup ∧ ∀ k, k ∈ l ↔ k ∈ ks

/-! ## Enumerating the keys that occur -/

theorem enumerates_nil : Enumerates ([] : List α) [] := by
  simp [Enumerates]

theorem Enumerates.append_of_mem {l ks : List α} (h : Enumerates l ks) {k : α}
    (hk : k ∈ ks) : Enumerates l (ks ++ [k]) := by
  refine ⟨h.1, fun x => ?_⟩
  rw [h.2 x, List.mem_append, List.mem_singleton]
  constructor
  · exact Or.inl
  · rintro (hx | rfl)
    · exact hx
    · exact hk

theorem Enumerates.append_of_notMem {l ks : List α} (h : Enumerates l ks) {k : α}
    (hk : k ∉ ks) : Enumerates (l ++ [k]) (ks ++ [k]) := by
  constructor
  · have hkl : k ∉ l := fun hmem => hk ((h.2 k).mp hmem)
    rw [List.nodup_append]
    refine ⟨h.1, List.nodup_singleton k, ?_⟩
    intro a ha b hb hab
    rw [List.mem_singleton] at hb
    exact hkl (hb ▸ hab ▸ ha)
  · intro x
    simp only [List.mem_append, List.mem_singleton, h.2 x]

/-- The enumeration grows by at most one name for each key. -/
theorem Enumerates.length_le {l ks : List α} (h : Enumerates l ks) : l.length ≤ ks.length :=
  (List.Nodup.subperm h.1 fun k hk => (h.2 k).mp hk).length_le

section Markers

variable [DecidableEq α]

/-! ## Appending one key -/

@[simp] theorem slotOf_nil (k : α) : slotOf [] k = .none := by
  simp [slotOf]

theorem slotOf_eq_none_iff {ks : List α} {k : α} : slotOf ks k = .none ↔ k ∉ ks := by
  unfold slotOf
  split
  · rename_i h
    simpa using List.count_eq_zero.mp h
  · rename_i h
    have hmem : k ∈ ks := List.count_pos_iff.mp (Nat.pos_of_ne_zero h)
    split <;> simp [hmem]

/-- A new key takes the index of its entry; a repeated one becomes `several`. -/
theorem slotOf_append_self (ks : List α) (k : α) :
    slotOf (ks ++ [k]) k = if slotOf ks k = .none then .one ks.length else .several := by
  by_cases hmem : k ∈ ks
  · have hpos : 0 < ks.count k := List.count_pos_iff.mpr hmem
    have hne : slotOf ks k ≠ .none := by
      rw [Ne, slotOf_eq_none_iff]
      exact fun h => h hmem
    rw [if_neg hne]
    have hcount : (ks ++ [k]).count k = ks.count k + 1 := by simp
    unfold slotOf
    rw [hcount, if_neg (by omega), if_neg (by omega)]
  · have hzero : ks.count k = 0 := List.count_eq_zero.mpr hmem
    rw [if_pos (slotOf_eq_none_iff.mpr hmem)]
    have hcount : (ks ++ [k]).count k = 1 := by simp [hzero]
    unfold slotOf
    rw [hcount, if_neg (by omega), if_pos rfl, List.idxOf_append_of_notMem hmem]
    simp

/-- The other keys keep their markers. -/
theorem slotOf_append_of_ne {ks : List α} {k k' : α} (h : k' ≠ k) :
    slotOf (ks ++ [k]) k' = slotOf ks k' := by
  have hcount : (ks ++ [k]).count k' = ks.count k' := by
    rw [List.count_append, List.count_singleton]
    simp [h.symm]
  unfold slotOf
  rw [hcount]
  split
  · rfl
  · rename_i hpos
    have hmem : k' ∈ ks := List.count_pos_iff.mp (Nat.pos_of_ne_zero hpos)
    rw [List.idxOf_append_of_mem hmem]

/-! ## Characterisations -/

/-- `one i` means: the key stands at index `i` and nowhere else. -/
theorem slotOf_eq_one_iff {ks : List α} {k : α} {i : ℕ} :
    slotOf ks k = .one i ↔ ks[i]? = some k ∧ ∀ j, ks[j]? = some k → j = i := by
  induction ks using List.reverseRecOn with
  | nil => simp
  | append_singleton ks a ih =>
    by_cases hka : k = a
    · subst hka
      rw [slotOf_append_self]
      by_cases hmem : k ∈ ks
      · rw [if_neg (by rw [slotOf_eq_none_iff]; exact fun h => h hmem)]
        -- `k` stands inside `ks` and again at its end
        rcases List.mem_iff_getElem?.mp hmem with ⟨j, hj⟩
        have hjlt : j < ks.length := (List.getElem?_eq_some_iff.mp hj).1
        constructor
        · intro h
          cases h
        · rintro ⟨_, huniq⟩
          have h1 : j = i := huniq j (by rw [List.getElem?_append_left hjlt]; exact hj)
          have h2 : ks.length = i := huniq ks.length (by simp)
          omega
      · rw [if_pos (slotOf_eq_none_iff.mpr hmem)]
        have hout : ∀ j, (ks ++ [k])[j]? = some k → j = ks.length := by
          intro j hj
          rcases Nat.lt_trichotomy j ks.length with hlt | heq | hgt
          · rw [List.getElem?_append_left hlt] at hj
            exact absurd (List.mem_of_getElem? hj) hmem
          · exact heq
          · rw [List.getElem?_append_right (by omega),
              List.getElem?_eq_none (by simp; omega)] at hj
            cases hj
        constructor
        · intro h
          cases h
          exact ⟨by simp, hout⟩
        · rintro ⟨hi, _⟩
          rw [hout i hi]
    · rw [slotOf_append_of_ne hka, ih]
      -- the appended key is another one, so the indices of `k` are unchanged
      have hget : ∀ j : ℕ, (ks ++ [a])[j]? = some k ↔ ks[j]? = some k := by
        intro j
        rcases Nat.lt_trichotomy j ks.length with hlt | heq | hgt
        · rw [List.getElem?_append_left hlt]
        · subst heq
          simp [Ne.symm hka]
        · rw [List.getElem?_eq_none (by simp; omega), List.getElem?_eq_none (by omega)]
      simp only [hget]

/-- `several` means: the key occurs at least twice. -/
theorem slotOf_eq_several_iff {ks : List α} {k : α} :
    slotOf ks k = .several ↔ 2 ≤ ks.count k := by
  unfold slotOf
  split
  · simp; omega
  · split
    · simp; omega
    · simp; omega

end Markers

end MobiPerf.Lib
