import Mathlib.Data.List.Basic

/-!
# Lib.Records — files of records

A file is a list of records, one behind the other. A `RecordFormat` says how a record
is written and how the next one is read, with the laws between them: what has been
written is read back, whatever follows, and a piece of a record is an error.
`Reads` is what reading to the end gives. The rules say what is read from a file that
has been cut anywhere, and what a reader gets that stops in between.
-/

namespace MobiPerf.Lib

variable {α β ρ ε : Type*}

/-- What reading one record comes to. -/
inductive Reading (β ρ ε : Type*) where
  | record (x : ρ) (rest : List β)
  | eof
  | error (e : ε)

/-- Reading to the end gives these records, and an error if it ends with one. -/
inductive Reads (next : List β → Reading β ρ ε) : List β → List ρ → Option ε → Prop where
  | eof {bs : List β} (h : next bs = .eof) : Reads next bs [] none
  | error {bs : List β} {e : ε} (h : next bs = .error e) : Reads next bs [] (some e)
  | record {bs rest : List β} {x : ρ} {rs : List ρ} {e : Option ε} (h : next bs = .record x rest)
      (hrest : Reads next rest rs e) : Reads next bs (x :: rs) e

/-- These records have been read, and `rest` is left. -/
inductive Consumes (next : List β → Reading β ρ ε) : List β → List ρ → List β → Prop where
  | nil (bs : List β) : Consumes next bs [] bs
  | cons {bs bs' rest : List β} {x : ρ} {xs : List ρ} (h : next bs = .record x bs')
      (hrest : Consumes next bs' xs rest) : Consumes next bs (x :: xs) rest

namespace Consumes

variable {next : List β → Reading β ρ ε} {bs bs' rest : List β} {xs ys rs : List ρ} {e : Option ε}

theorem trans (h : Consumes next bs xs bs') (h' : Consumes next bs' ys rest) :
    Consumes next bs (xs ++ ys) rest := by
  induction h with
  | nil bs => exact h'
  | cons hnext _ ih => exact .cons hnext (ih h')

/-- What is left are the other records. -/
theorem reads (h : Consumes next bs xs rest) (hreads : Reads next bs rs e) :
    ∃ ys, rs = xs ++ ys ∧ Reads next rest ys e := by
  induction h generalizing rs with
  | nil bs => exact ⟨rs, rfl, hreads⟩
  | cons hnext _ ih =>
      cases hreads with
      | eof h | error h => cases hnext.symm.trans h
      | record h hrest =>
          cases hnext.symm.trans h
          obtain ⟨ys, rfl, hys⟩ := ih hrest
          exact ⟨ys, rfl, hys⟩

theorem length_le (hless : ∀ bs x rest, next bs = .record x rest → rest.length < bs.length)
    (h : Consumes next bs xs rest) : rest.length + xs.length ≤ bs.length := by
  induction h with
  | nil bs => exact Nat.le_refl _
  | cons hnext _ ih =>
      have hlt := hless _ _ _ hnext
      rw [List.length_cons]
      omega

end Consumes

theorem Reads.of_eof {next : List β → Reading β ρ ε} {bs : List β} {rs : List ρ} {e : Option ε}
    (h : Reads next bs rs e) (heof : next bs = .eof) : rs = [] ∧ e = none := by
  cases h with
  | eof => exact ⟨rfl, rfl⟩
  | error h | record h => cases heof.symm.trans h

theorem Reads.of_error {next : List β → Reading β ρ ε} {bs : List β} {rs : List ρ} {e : Option ε}
    {x : ε} (h : Reads next bs rs e) (herror : next bs = .error x) : rs = [] ∧ e = some x := by
  cases h with
  | eof h | record h => cases herror.symm.trans h
  | error h =>
      cases herror.symm.trans h
      exact ⟨rfl, rfl⟩

structure RecordFormat (α β ρ ε : Type*) where
  encode : α → List β
  next : List β → Reading β ρ ε
  /-- what is read back -/
  view : α → ρ
  next_nil : next [] = .eof
  next_encode : ∀ a rest, next (encode a ++ rest) = .record (view a) rest
  next_cut : ∀ a n, 0 < n → n < (encode a).length → ∃ e, next ((encode a).take n) = .error e

namespace RecordFormat

variable (F : RecordFormat α β ρ ε)

/-- The records, one behind the other. -/
def file (as : List α) : List β := as.flatMap F.encode

/-- The records that are complete in the first `n` bytes of their file. -/
def complete : List α → ℕ → List α
  | [], _ => []
  | a :: as, n =>
    if (F.encode a).length ≤ n then a :: complete as (n - (F.encode a).length) else []

/-- The file has been cut between two records, or not at all. -/
def Whole : List α → ℕ → Prop
  | [], _ => True
  | a :: as, n => n = 0 ∨ (F.encode a).length ≤ n ∧ Whole as (n - (F.encode a).length)

variable {F}

theorem file_cons (a : α) (as : List α) : F.file (a :: as) = F.encode a ++ F.file as := rfl

theorem encode_length_pos (a : α) : 0 < (F.encode a).length := by
  refine List.length_pos_of_ne_nil fun hnil => ?_
  have hnext := F.next_encode a []
  rw [hnil, List.append_nil, F.next_nil] at hnext
  cases hnext

/-- Nothing has been cut off. -/
theorem complete_of_le {as : List α} {n : ℕ} (h : (F.file as).length ≤ n) :
    F.complete as n = as ∧ F.Whole as n := by
  induction as generalizing n with
  | nil => exact ⟨rfl, trivial⟩
  | cons a as ih =>
      rw [file_cons, List.length_append] at h
      obtain ⟨hcomplete, hwhole⟩ := ih (n := n - (F.encode a).length) (by omega)
      have hle : (F.encode a).length ≤ n := by omega
      exact ⟨by rw [complete, if_pos hle, hcomplete], .inr ⟨hle, hwhole⟩⟩

/-- From a cut file the complete records are read, and then it ends, with an error if
the cut is inside a record. -/
theorem reads_take (as : List α) (n : ℕ) :
    ∃ e, Reads F.next ((F.file as).take n) ((F.complete as n).map F.view) e ∧
      (e = none ↔ F.Whole as n) := by
  induction as generalizing n with
  | nil =>
      refine ⟨none, .eof ?_, iff_of_true rfl trivial⟩
      rw [show F.file [] = [] from rfl, List.take_nil]
      exact F.next_nil
  | cons a as ih =>
      rw [file_cons, complete, Whole]
      -- the first record is whole, or the cut is in it
      by_cases hle : (F.encode a).length ≤ n
      · obtain ⟨e, hreads, hwhole⟩ := ih (n - (F.encode a).length)
        refine ⟨e, ?_, ?_⟩
        · rw [if_pos hle, List.map_cons, List.take_append, List.take_of_length_le hle]
          exact .record (F.next_encode a _) hreads
        · have hpos := F.encode_length_pos a
          rw [hwhole]
          exact ⟨fun h => .inr ⟨hle, h⟩, fun h => (h.resolve_left (by omega)).2⟩
      · rw [if_neg hle]
        have htake : (F.encode a ++ F.file as).take n = (F.encode a).take n :=
          List.take_append_of_le_length (Nat.le_of_lt (Nat.not_le.mp hle))
        rw [htake]
        -- a cut in front of the record is the end of the file
        by_cases hzero : n = 0
        · refine ⟨none, .eof ?_, iff_of_true rfl (.inl hzero)⟩
          rw [hzero, List.take_zero]
          exact F.next_nil
        · obtain ⟨e, he⟩ := F.next_cut a n (Nat.pos_of_ne_zero hzero) (Nat.not_le.mp hle)
          refine ⟨some e, .error he, iff_of_false (fun h => (nomatch h)) ?_⟩
          rintro (h | h)
          · exact hzero h
          · exact hle h.1

/-- A whole file is read to its end. -/
theorem reads_file (as : List α) : Reads F.next (F.file as) (as.map F.view) none := by
  obtain ⟨hcomplete, hwhole⟩ : F.complete as (F.file as).length = as ∧
      F.Whole as (F.file as).length := complete_of_le (Nat.le_refl _)
  obtain ⟨e, hreads, hiff⟩ := F.reads_take as (F.file as).length
  rw [hcomplete, List.take_length, hiff.mpr hwhole] at hreads
  exact hreads

end RecordFormat

end MobiPerf.Lib
