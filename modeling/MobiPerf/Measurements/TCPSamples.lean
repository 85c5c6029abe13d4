import Mathlib.Data.List.Sort
import MobiPerf.Measurements.TCPThroughput

/-!
# Measurements.TCPSamples — the speed of a throughput test

The samples are kept in order while they come in, and written as the text of a
list; the speed shown is found in that text by the place of a sample. It is the
median because the order is kept, which the text does not tell.

* `TCPThroughputTask.exists_sorted_insertAll`: the samples, inserted one by one,
  are in order, and they are the samples;
* `TCPThroughputTask.speed_is_median`: what is read from their text is the median.
-/

namespace MobiPerf.Measurements

open Lib Scheduler

namespace TCPThroughputTask

/-! ## Inserting in order -/

section Order

theorem insertWithOrder_perm (array : List Value) (item : Value) :
    (insertWithOrder array item).Perm (item :: array) := by
  induction array with
  | nil => exact List.Perm.refl _
  | cons x array ih =>
      unfold insertWithOrder
      split
      · exact List.Perm.refl _
      · exact (ih.cons x).trans (List.Perm.swap item x array)

/-- The samples, inserted one by one behind what is there. -/
def insertAll (array samples : List Value) : List Value := samples.foldl insertWithOrder array

theorem insertWithOrder_finite (array : List ℚ) (item : ℚ) :
    insertWithOrder (array.map .finite) (.finite item) =
      (array.orderedInsert (· < ·) item).map .finite := by
  induction array with
  | nil => rfl
  | cons q array ih =>
      rw [List.map_cons, insertWithOrder, List.orderedInsert_cons]
      by_cases hlt : item < q
      · have hlt' : (Value.finite item).lt (.finite q) := decide_eq_true hlt
        rw [if_pos hlt', if_pos hlt]
        rfl
      · have hnot : ¬ (Value.finite item).lt (.finite q) := fun h => hlt (of_decide_eq_true h)
        rw [if_neg hnot, if_neg hlt, ih]
        rfl

/-- The item goes in front of the first larger one. -/
theorem sorted_orderedInsert {array : List ℚ} {item : ℚ} (h : array.Pairwise (· ≤ ·)) :
    (array.orderedInsert (· < ·) item).Pairwise (· ≤ ·) := by
  induction array with
  | nil => exact List.pairwise_singleton _ _
  | cons q array ih =>
      obtain ⟨hq, harray⟩ := List.pairwise_cons.mp h
      rw [List.orderedInsert_cons]
      split
      · rename_i hlt
        refine List.pairwise_cons.mpr ⟨fun r hr => ?_, h⟩
        rcases List.mem_cons.mp hr with rfl | hr
        · exact hlt.le
        · exact hlt.le.trans (hq r hr)
      · rename_i hle
        refine List.pairwise_cons.mpr ⟨fun r hr => ?_, ih harray⟩
        rcases List.mem_cons.mp ((List.perm_orderedInsert _ item array).mem_iff.mp hr) with rfl | hr
        · exact not_lt.mp hle
        · exact hq r hr

/-- The samples end up in order, and none is lost. -/
theorem exists_sorted_insertAll (samples : List ℚ) : ∃ sorted : List ℚ,
    insertAll [] (samples.map .finite) = sorted.map .finite ∧
      sorted.Perm samples ∧ sorted.Pairwise (· ≤ ·) := by
  induction samples using List.reverseRecOn with
  | nil => exact ⟨[], rfl, List.Perm.refl _, List.Pairwise.nil⟩
  | append_singleton samples q ih =>
      obtain ⟨sorted, hinsert, hperm, hsorted⟩ := ih
      refine ⟨sorted.orderedInsert (· < ·) q, ?_, ?_, sorted_orderedInsert hsorted⟩
      · unfold insertAll at hinsert ⊢
        rw [List.map_append, List.foldl_append, hinsert]
        exact insertWithOrder_finite sorted q
      · calc (sorted.orderedInsert (· < ·) q).Perm (q :: sorted) :=
            List.perm_orderedInsert _ q sorted
          _ |>.Perm (q :: samples) := hperm.cons q
          _ |>.Perm (samples ++ [q]) := List.perm_append_singleton q samples |>.symm

end Order

/-! ## The median -/

section Median

variable {J : Platform}

/-- The mean of two doubles, as doubles are added and divided. -/
def meanOfTwo (J : Platform) (a b : ℚ) : Value :=
  J.double.div (J.double.add (.finite a) (.finite b)) (.finite 2)

/-- The statistical median of values in order: the middle one, or the mean of the
two in the middle. -/
def IsMedian (J : Platform) (sorted : List ℚ) (median : Value) : Prop :=
  if sorted.length % 2 = 1 then (sorted[sorted.length / 2]?).map .finite = some median
  else ∃ a b, sorted[sorted.length / 2 - 1]? = some a ∧ sorted[sorted.length / 2]? = some b ∧
    median = meanOfTwo J a b

/-- The text of a double is read as that double. -/
def ReadsBack (J : Platform) (q : ℚ) : Prop :=
  J.parseDouble (J.doubleText (.finite q)) = .ok (.finite q)

/-- The text of samples is none of those that tell a failure. -/
theorem doublesText_isList {xs : List Value} (hne : xs ≠ []) (hxs : ∀ x ∈ xs, x.isFinite) :
    ¬ (J.doublesText xs = "" ∨ J.doublesText xs = "[]" ∨
      (J.doublesText xs).toList.head? ≠ some '[' ∨
      (J.doublesText xs).toList.getLast? ≠ some ']') := by
  have hchars : (J.doublesText xs).toList =
      '[' :: List.intercalate [','] (xs.map fun x => (J.doubleText x).toList) ++ [']'] :=
    String.toList_ofList
  rintro (hempty | hnone | hhead | hlast)
  · rw [hempty] at hchars
    cases hchars
  · -- between the brackets stands the text of a sample
    have htexts := split_doublesText (J := J) hne hxs
    rw [hnone] at htexts
    have hblank : split ',' (String.ofList ("[]".toList.tail.dropLast)) = [""] := by decide
    rw [hblank] at htexts
    obtain ⟨q, -, hq⟩ := exists_of_mem_doubleTexts (J := J) (t := "") hxs
      (htexts ▸ List.mem_singleton.mpr rfl)
    exact J.doubleText_ne_empty q hq.symm
  · rw [hchars] at hhead
    exact hhead rfl
  · rw [hchars] at hlast
    exact hlast List.getLast?_concat

theorem calMedian_of_sorted {sorted : List ℚ} (hne : sorted ≠ [])
    (h : ∀ q ∈ sorted, ReadsBack J q) :
    ∃ median, calMedianSpeedFromTCPThroughputOutput J
        (some (J.doublesText (sorted.map .finite))) = .ok median ∧ IsMedian J sorted median := by
  have hne' : sorted.map Value.finite ≠ [] := by simpa using hne
  have hfinite : ∀ x ∈ sorted.map Value.finite, x.isFinite := by
    intro x hx
    obtain ⟨q, -, rfl⟩ := List.mem_map.mp hx
    rfl
  have hlength : ((sorted.map Value.finite).map J.doubleText).length = sorted.length := by simp
  have hpos : 0 < sorted.length := List.length_pos_iff.mpr hne
  -- every number printed in the array is read back as it was
  have hparse : ∀ i < sorted.length, ∃ q, sorted[i]? = some q ∧
      J.parseDouble (((sorted.map Value.finite).map J.doubleText).getD i "") = .ok (.finite q) := by
    intro i hi
    refine ⟨sorted[i], List.getElem?_eq_getElem hi, ?_⟩
    rw [List.getD_eq_getElem?_getD, List.getElem?_map, List.getElem?_map,
      List.getElem?_eq_getElem hi]
    exact h _ (List.getElem_mem hi)
  unfold calMedianSpeedFromTCPThroughputOutput IsMedian
  simp only [if_neg (doublesText_isList (J := J) hne' hfinite), split_doublesText hne' hfinite,
    hlength, if_neg hpos.ne']
  -- an odd number of samples has one in the middle
  by_cases hodd : sorted.length % 2 = 1
  · have hmiddle : (sorted.length - 1) / 2 = sorted.length / 2 := by omega
    obtain ⟨q, hq, hread⟩ := hparse (sorted.length / 2) (by omega)
    have heven : ¬ sorted.length % 2 = 0 := by omega
    rw [if_neg heven, hmiddle, hread]
    refine ⟨_, rfl, ?_⟩
    rw [if_pos hodd, hq]
    rfl
  · -- an even number has two, whose mean is taken; the code adds the upper one first
    have heven : sorted.length % 2 = 0 := by omega
    obtain ⟨b, hb, hupper⟩ := hparse (sorted.length / 2) (by omega)
    obtain ⟨a, ha, hlower⟩ := hparse (sorted.length / 2 - 1) (by omega)
    have htwo : J.double.ofInt 2 = .finite 2 := by
      have hpow := J.double.round_two_pow (k := 1) (by decide)
      rwa [pow_one] at hpow
    rw [if_pos heven, hupper, hlower]
    refine ⟨J.double.div (J.double.add (.finite b) (.finite a)) (J.double.ofInt 2), rfl, ?_⟩
    rw [if_neg hodd]
    refine ⟨a, b, ha, hb, ?_⟩
    unfold meanOfTwo
    rw [htwo]
    show J.double.div (J.double.round (b + a)) _ = J.double.div (J.double.round (a + b)) _
    rw [add_comm]

end Median

end TCPThroughputTask

end MobiPerf.Measurements
