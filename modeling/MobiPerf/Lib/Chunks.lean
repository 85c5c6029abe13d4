import Mathlib.Algebra.BigOperators.Intervals

/-!
# Lib.Chunks — pieces cut from chunks of memory

An allocator that cuts pieces from the chunk that is open. A piece larger than what
is left opens the next chunk, whose size its position decides; what was left of the
one before is lost. There are no chunks from a limit on.

A run of pieces never takes more than there is room for (`sum_le_room`), and each
chunk that is closed loses less than a largest piece, so that a run which leaves that
much room never fails (`isSome_of_sum_le`).
-/

namespace MobiPerf.Lib

/-- The chunk that is open, and what is left of it. -/
structure Chunks where
  cur : ℕ
  left : ℕ
deriving DecidableEq, Repr

namespace Chunks

def cut (size : ℕ → ℕ) (limit : ℕ) (c : Chunks) (n : ℕ) : Option Chunks :=
  if n ≤ c.left then some ⟨c.cur, c.left - n⟩
  else if limit ≤ c.cur + 1 ∨ size (c.cur + 1) < n then none
  else some ⟨c.cur + 1, size (c.cur + 1) - n⟩

/-- What is left of the open chunk, and the chunks behind it. -/
def room (size : ℕ → ℕ) (limit : ℕ) (c : Chunks) : ℕ :=
  c.left + ∑ k ∈ Finset.Ico (c.cur + 1) limit, size k

section Room

variable {size : ℕ → ℕ} {limit n : ℕ} {c d : Chunks}

/-- A piece comes from the open chunk, or from the next one. -/
theorem cut_eq_some (h : cut size limit c n = some d) :
    (n ≤ c.left ∧ d = ⟨c.cur, c.left - n⟩) ∨
      (c.cur + 1 < limit ∧ n ≤ size (c.cur + 1) ∧ d = ⟨c.cur + 1, size (c.cur + 1) - n⟩) := by
  unfold cut at h
  split at h
  · rename_i hfits
    exact .inl ⟨hfits, (Option.some.inj h).symm⟩
  · split at h
    · cases h
    · rename_i hnext
      rw [not_or, Nat.not_le, Nat.not_lt] at hnext
      exact .inr ⟨hnext.1, hnext.2, (Option.some.inj h).symm⟩

/-- The room of a chunk that is closed: the next one and those behind it. -/
theorem room_next (size : ℕ → ℕ) (left : ℕ) (h : c.cur + 1 < limit) :
    room size limit c + left = room size limit ⟨c.cur + 1, left⟩ + c.left + size (c.cur + 1) := by
  simp only [room, Finset.sum_eq_sum_Ico_succ_bot h]
  omega

theorem add_room_le (h : cut size limit c n = some d) :
    n + room size limit d ≤ room size limit c := by
  rcases cut_eq_some h with ⟨hfits, rfl⟩ | ⟨hlimit, hsize, rfl⟩
  · simp only [room]
    omega
  · have hnext := room_next size (size (c.cur + 1) - n) hlimit
    omega

/-- A run of pieces takes no more than the room. -/
theorem sum_le_room {ns : List ℕ} (h : ns.foldlM (cut size limit) c = some d) :
    ns.sum ≤ room size limit c := by
  induction ns generalizing c with
  | nil => exact Nat.zero_le _
  | cons n ns ih =>
      rw [List.foldlM_cons, Option.bind_eq_bind, Option.bind_eq_some_iff] at h
      obtain ⟨c', hcut, hrest⟩ := h
      have hle := ih hrest
      have hroom := add_room_le hcut
      rw [List.sum_cons]
      omega

/-- Where a largest piece is left over for every chunk to come, no piece is refused. -/
theorem isSome_of_sum_le {m : ℕ} {ns : List ℕ} (hm : ∀ n ∈ ns, n ≤ m)
    (hsize : ∀ k, c.cur < k → k < limit → m ≤ size k)
    (hsum : ns.sum + (limit - 1 - c.cur) * m ≤ room size limit c) :
    (ns.foldlM (cut size limit) c).isSome := by
  induction ns generalizing c with
  | nil => rfl
  | cons n ns ih =>
      have hn := hm n List.mem_cons_self
      have hm' : ∀ n ∈ ns, n ≤ m := fun k hk => hm k (List.mem_cons_of_mem _ hk)
      rw [List.sum_cons] at hsum
      by_cases hfits : n ≤ c.left
      · have hcut : cut size limit c n = some ⟨c.cur, c.left - n⟩ := if_pos hfits
        rw [List.foldlM_cons, hcut, Option.bind_eq_bind, Option.bind_some]
        refine ih hm' hsize ?_
        simp only [room] at hsum ⊢
        omega
      · -- the last chunk has room for what is left of the run
        have hlimit : c.cur + 1 < limit := by
          by_contra hlast
          rw [room, Finset.Ico_eq_empty_of_le (Nat.le_of_not_lt hlast), Finset.sum_empty] at hsum
          omega
        have hle : n ≤ size (c.cur + 1) := hn.trans (hsize _ (Nat.lt_succ_self _) hlimit)
        have hcut : cut size limit c n = some ⟨c.cur + 1, size (c.cur + 1) - n⟩ := by
          rw [cut, if_neg hfits, if_neg]
          rw [not_or, Nat.not_le, Nat.not_lt]
          exact ⟨hlimit, hle⟩
        rw [List.foldlM_cons, hcut, Option.bind_eq_bind, Option.bind_some]
        refine ih hm' (fun k hk => hsize k (Nat.lt_of_succ_lt hk)) ?_
        have hnext := room_next size (size (c.cur + 1) - n) hlimit
        have hchunks : (limit - 1 - c.cur) * m = (limit - 1 - (c.cur + 1)) * m + m := by
          rw [← Nat.succ_mul]
          congr 1
          omega
        simp only at hnext ⊢
        omega

end Room

end Chunks

end MobiPerf.Lib
