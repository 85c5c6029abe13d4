import Mathlib.Algebra.BigOperators.Group.List.Basic
import MobiPerf.Capture.Bpf
import MobiPerf.Lib.Chunks

/-!
# Capture.FilterMemory — the memory of the filter compiler

Statements, blocks and arithmetic expressions are cut from 16 chunks, each twice as
large as the one before, and a request that does not fit any more is the error "out
of memory", which ends `pcap_compile`. Nothing is freed before its end.

A list of statements carries the requests that were made on the way to it, one for
each statement at least, so that a filter which has been compiled is not long:
`length_le_of_fits`. That `malloc` gives a chunk when it is asked for one is assumed.
-/

namespace MobiPerf.Capture

open Lib

/-! ## Chunks -/

/-- The structures that `newchunk` is asked for. -/
inductive Piece where
  | block
  | slist
  | arth
deriving DecidableEq, Repr

/-- The sizes of a machine's types, of which none is empty. -/
structure Build where
  sizeofLong : ℕ
  sizeof : Piece → ℕ
  sizeofLong_pos : 0 < sizeofLong
  sizeof_pos : ∀ p, 0 < sizeof p

def nchunks : ℕ := 16

def chunk0size : ℕ := 1024

/-- The size of a piece, rounded up to the nearest long. -/
def Build.rounded (build : Build) (p : Piece) : ℕ :=
  (build.sizeof p + build.sizeofLong - 1) / build.sizeofLong * build.sizeofLong

/-- `newchunk`. -/
def newchunk (build : Build) (c : Chunks) (p : Piece) : Option Chunks :=
  c.cut (fun k => chunk0size <<< k) nchunks (build.rounded p)

/-- Behind `freechunks` the first chunk is open, although there is never anything in it. -/
def freechunks : Chunks := ⟨0, 0⟩

/-- All the requests are met, in their order. -/
def Fits (build : Build) (ps : List Piece) : Prop :=
  (ps.foldlM (newchunk build) freechunks).isSome

instance (build : Build) (ps : List Piece) : Decidable (Fits build ps) :=
  inferInstanceAs (Decidable (Option.isSome _ = true))

/-- What the chunks hold together. -/
theorem room_freechunks :
    freechunks.room (fun k => chunk0size <<< k) nchunks = 67106816 := by decide

section Fits

variable {build : Build} {ps : List Piece}

theorem Build.rounded_pos (build : Build) (p : Piece) : 0 < build.rounded p := by
  have hlong := build.sizeofLong_pos
  have hsize := build.sizeof_pos p
  exact Nat.mul_pos (Nat.div_pos (by omega) hlong) hlong

theorem foldlM_newchunk (c : Chunks) : ps.foldlM (newchunk build) c =
    (ps.map build.rounded).foldlM (Chunks.cut (fun k => chunk0size <<< k) nchunks) c := by
  rw [List.foldlM_map]
  rfl

theorem sum_le_of_fits (h : Fits build ps) : (ps.map build.rounded).sum ≤ 67106816 := by
  obtain ⟨d, hd⟩ := Option.isSome_iff_exists.mp h
  rw [foldlM_newchunk] at hd
  exact (Chunks.sum_le_room hd).trans_eq room_freechunks

/-- There are no more pieces than bytes. -/
theorem length_le_of_fits (h : Fits build ps) : ps.length ≤ 67106816 := by
  have hpos : ∀ n ∈ ps.map build.rounded, 1 ≤ n := by
    intro n hn
    obtain ⟨p, -, rfl⟩ := List.mem_map.mp hn
    exact build.rounded_pos p
  have hle := List.length_le_sum_of_one_le _ hpos
  rw [List.length_map] at hle
  exact hle.trans (sum_le_of_fits h)

/-- Requests are met as long as they leave the largest piece 15 times. -/
theorem fits_of_sum_le {m : ℕ} (hm : ∀ p, build.rounded p ≤ m) (hchunk : m ≤ 2 * chunk0size)
    (hsum : (ps.map build.rounded).sum + 15 * m ≤ 67106816) : Fits build ps := by
  rw [Fits, foldlM_newchunk]
  refine Chunks.isSome_of_sum_le (m := m) ?_ (fun k hk _ => hchunk.trans ?_)
    (hsum.trans_eq room_freechunks.symm)
  · intro n hn
    obtain ⟨p, -, rfl⟩ := List.mem_map.mp hn
    exact hm p
  · rw [Nat.shiftLeft_eq, Nat.mul_comm 2]
    exact Nat.mul_le_mul_left _ (Nat.le_self_pow (Nat.ne_of_gt hk) 2)

end Fits

/-! ## Statements -/

/-- `struct stmt`, without the jumps inside a block. -/
structure FilterStmt where
  code : UInt16
  k : UInt32
deriving DecidableEq, Repr

/-- A statement that does not jump; registers are allocated below `BPF_MEMWORDS`. -/
def FilterStmt.Plain (t : FilterStmt) : Prop :=
  ∃ m, decodeOp t.code = some (.move m) ∧ ((Op.move m).usesMem → t.k.toNat < bpfMemwords)

theorem plain_nil : ∀ t ∈ ([] : List FilterStmt), t.Plain := List.forall_mem_nil _

theorem plain_append {ts us : List FilterStmt} (hts : ∀ t ∈ ts, t.Plain) (hus : ∀ t ∈ us, t.Plain) :
    ∀ t ∈ ts ++ us, t.Plain := fun t ht =>
  (List.mem_append.mp ht).elim (hts t) (hus t)

/-- A list of `struct slist`, and what `newchunk` was asked for on the way to it. -/
structure Slist where
  stmts : List FilterStmt
  pieces : List Piece
  plain : ∀ t ∈ stmts, t.Plain
  room : stmts.length ≤ pieces.length

/-- `new_stmt`, for one statement after the other. -/
def newStmts (ts : List FilterStmt) (hts : ∀ t ∈ ts, t.Plain) : Slist where
  stmts := ts
  pieces := ts.map fun _ => .slist
  plain := hts
  room := (List.length_map _).ge

/-- `sappend`. -/
def Slist.sappend (s0 s1 : Slist) : Slist where
  stmts := s0.stmts ++ s1.stmts
  pieces := s0.pieces ++ s1.pieces
  plain := plain_append s0.plain s1.plain
  room := by
    rw [List.length_append, List.length_append]
    exact Nat.add_le_add s0.room s1.room

/-- A new `struct arth`, which has no statements yet. -/
def newArth : Slist where
  stmts := []
  pieces := [.arth]
  plain := plain_nil
  room := Nat.zero_le 1

end MobiPerf.Capture
