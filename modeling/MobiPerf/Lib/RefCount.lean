import Mathlib.Data.List.Basic

/-!
# Lib.RefCount — a lock that counts its references

A reference-counted lock is held while some `acquire` has not been answered by a
`release`. It does not know who acquired it: that each release answers an acquire
of the same party is up to the parties. `Counts holds parties lock` says that it
has been so far, and so that the lock is held if and only if a party holds a
reference (`Counts.held_iff`). The rules say which steps of the parties keep it:
one that takes a reference together with an `acquire`, one that gives its own back
together with a `release`, and any that leaves it alone.
-/

namespace MobiPerf.Lib

/-! ## The lock -/

/-- Counted: each `acquire` is answered by one `release`. Not counted: one `release`
answers all of them. -/
structure RefLock where
  refCounted : Bool
  count : ℕ
  held : Bool
deriving DecidableEq, Repr

namespace RefLock

/-- A lock is counted, unless it is told otherwise. -/
def new : RefLock where
  refCounted := true
  count := 0
  held := false

def acquire (lock : RefLock) : RefLock :=
  if lock.refCounted then { lock with count := lock.count + 1, held := true }
  else { lock with held := true }

/-- A counted lock that nobody holds stays as it is. -/
def release (lock : RefLock) : RefLock :=
  if lock.refCounted then { lock with count := lock.count - 1, held := decide (1 < lock.count) }
  else { lock with held := false }

def setReferenceCounted (lock : RefLock) (value : Bool) : RefLock :=
  { lock with refCounted := value }

/-- Not held, and no longer counted. -/
structure Freed (lock : RefLock) : Prop where
  refCounted : lock.refCounted = false
  held : lock.held = false

/-- A lock that is no longer counted is free after one release. -/
theorem freed_release (lock : RefLock) : (lock.setReferenceCounted false).release.Freed :=
  ⟨rfl, rfl⟩

/-- A late release finds nothing to do. -/
theorem Freed.release {lock : RefLock} (h : lock.Freed) : lock.release.Freed := by
  have hrelease : lock.release = { lock with held := false } := by
    simp [RefLock.release, h.refCounted]
  rw [hrelease]
  exact ⟨h.refCounted, rfl⟩

end RefLock

/-! ## The parties -/

variable {α : Type*}

/-- The lock counts the parties that hold a reference. -/
structure Counts (holds : α → Bool) (parties : List α) (lock : RefLock) : Prop where
  refCounted : lock.refCounted = true
  count : lock.count = parties.countP holds
  held : lock.held = decide (0 < lock.count)

namespace Counts

variable {holds holds' : α → Bool} {parties : List α} {lock : RefLock} {i : ℕ} {a b : α}

theorem held_iff (h : Counts holds parties lock) :
    lock.held = true ↔ ∃ a ∈ parties, holds a = true := by
  rw [h.held, decide_eq_true_iff, h.count]
  exact List.countP_pos_iff

/-- A new lock, while no party holds a reference. -/
theorem new (h : ∀ a ∈ parties, holds a = false) : Counts holds parties RefLock.new where
  refCounted := rfl
  count := by
    refine (List.countP_eq_zero.mpr ?_).symm
    intro a ha
    simp [h a ha]
  held := rfl

/-- A party arrives. -/
theorem append (h : Counts holds parties lock) (ha : holds a = false) :
    Counts holds (parties ++ [a]) lock where
  refCounted := h.refCounted
  count := by simp [h.count, ha]
  held := h.held

/-- A party arrives that takes a reference. -/
theorem append_acquire (h : Counts holds parties lock) (ha : holds a = true) :
    Counts holds (parties ++ [a]) lock.acquire := by
  have hacquire : lock.acquire = { lock with count := lock.count + 1, held := true } := by
    simp [RefLock.acquire, h.refCounted]
  rw [hacquire]
  exact ⟨h.refCounted, by simp [h.count, ha], by simp⟩

theorem countP_set_add (holds : α → Bool) (hi : parties[i]? = some a) (b : α) :
    (parties.set i b).countP holds + (if holds a then 1 else 0)
      = parties.countP holds + (if holds b then 1 else 0) := by
  obtain ⟨hlt, rfl⟩ := List.getElem?_eq_some_iff.mp hi
  have hle : (if holds parties[i] then 1 else 0) ≤ parties.countP holds := by
    split
    · rename_i hpos
      exact List.countP_pos_iff.mpr ⟨_, List.getElem_mem hlt, hpos⟩
    · exact Nat.zero_le _
  rw [List.countP_set hlt]
  omega

/-- A party moves on with what it has. -/
theorem set (h : Counts holds parties lock) (hi : parties[i]? = some a)
    (hb : holds b = holds a) : Counts holds (parties.set i b) lock where
  refCounted := h.refCounted
  count := by
    have hset := countP_set_add holds hi b
    rw [hb] at hset
    rw [h.count]
    omega
  held := h.held

/-- A party takes a reference. -/
theorem set_acquire (h : Counts holds parties lock) (hi : parties[i]? = some a)
    (ha : holds a = false) (hb : holds b = true) :
    Counts holds (parties.set i b) lock.acquire := by
  have hacquire : lock.acquire = { lock with count := lock.count + 1, held := true } := by
    simp [RefLock.acquire, h.refCounted]
  have hset := countP_set_add holds hi b
  simp only [ha, hb] at hset
  rw [hacquire]
  refine ⟨h.refCounted, ?_, by simp⟩
  change lock.count + 1 = _
  rw [h.count]
  simpa using hset.symm

/-- A party gives its reference back. -/
theorem set_release (h : Counts holds parties lock) (hi : parties[i]? = some a)
    (ha : holds a = true) (hb : holds b = false) :
    Counts holds (parties.set i b) lock.release := by
  have hrelease : lock.release
      = { lock with count := lock.count - 1, held := decide (1 < lock.count) } := by
    simp [RefLock.release, h.refCounted]
  have hset := countP_set_add holds hi b
  simp only [ha, hb] at hset
  rw [hrelease]
  refine ⟨h.refCounted, ?_, ?_⟩
  · change lock.count - 1 = _
    rw [h.count]
    simpa using (Nat.eq_sub_of_add_eq hset).symm
  · change decide (1 < lock.count) = decide (0 < lock.count - 1)
    rw [decide_eq_decide]
    omega

end Counts

end MobiPerf.Lib
