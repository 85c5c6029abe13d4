import MobiPerf.Capture.FilterExpr

/-!
# Capture.FilterLayout — from blocks to instructions

`icode_to_fcode` counts the instructions that the graph needs, allocates them and
lets `convert_code_r` fill them from the end: a block is placed in front of what its
edges lead to. A conditional jump has 8 bits for its offset; a block whose offset is
too large is marked (`longjt`, `longjf`), the whole conversion is tried again, and
then a jump of 32 bits stands behind the block.

Here are the functions, and what becomes of one block: `place_test` says that a
block whose edges lead to blocks in the array is put in front of them, or marked.
-/

namespace MobiPerf.Capture

open Lib

/-! ## Counting -/

/-- `p->longjt` and `p->longjf`. -/
structure Long where
  jt : ℕ → ℕ
  jf : ℕ → ℕ

/-- `slength`; `NOP` is only written by the optimizer. -/
def slength (stmts : List FilterStmt) : ℕ := stmts.length

/-- The instructions of a block. -/
def room (G : Graph) (long : Long) (p : ℕ) : ℕ :=
  slength (G.code p).1 + 1 + long.jt p + long.jf p

/-- `count_stmts`, with the blocks that are marked; a path has no more blocks than
the graph. -/
def countStmts (G : Graph) (long : Long) : ℕ → Option ℕ → Finset ℕ → Option (ℕ × Finset ℕ)
  | _, none, mark => some (0, mark)
  | 0, some _, _ => none
  | fuel + 1, some p, mark =>
    if p ∈ mark then some (0, mark)
    else do
      let (nt, mark) ← countStmts G long fuel (G.edge p true) (insert p mark)
      let (nf, mark) ← countStmts G long fuel (G.edge p false) mark
      return (slength (G.code p).1 + (nt + nf) + 1 + long.jt p + long.jf p, mark)

/-! ## `convert_code_r` -/

/-- The array from `ftail` on, and what the blocks say of their place. -/
structure FcodeLayout where
  mark : Finset ℕ
  long : Long
  offset : ℕ → ℕ
  ftail : ℕ
  fcode : List Insn

def FilterStmt.insn (t : FilterStmt) : Insn := ⟨t.code, 0, 0, t.k⟩

/-- The array is cleared before it is filled. -/
def zeroInsn : Insn := ⟨0, 0, 0, 0⟩

def farJump (k : UInt32) : Insn := ⟨bpfJmp ||| bpfJa, 0, 0, k⟩

/-- The offset of an edge from the branch of its block, as an `u_int`. -/
def FcodeLayout.off (L : FcodeLayout) (p slen target : ℕ) : UInt32 :=
  UInt32.ofInt ((L.offset target : ℤ) - (L.offset p + slen) - 1)

/-- One side of a branch, with the jumps inserted so far: its byte, and an inserted
jump if the offset is too large. `none` asks for another try. -/
def placeSide (off : UInt32) (long : ℕ) (extrajmps : List Insn) : Option (UInt8 × List Insn) :=
  if 256 ≤ off then
    if long = 0 then none
    else
      some (UInt8.ofNat extrajmps.length,
        extrajmps ++ [farJump (off - UInt32.ofNat (extrajmps.length + 1))])
  else some (off.toUInt8, extrajmps)

/-- The instructions of a block in their room. -/
def FcodeLayout.write (L : FcodeLayout) (code : List Insn) (room : ℕ) : FcodeLayout :=
  { L with fcode := code ++ List.replicate (room - code.length) zeroInsn ++ L.fcode }

def FcodeLayout.markJt (L : FcodeLayout) (p : ℕ) : FcodeLayout :=
  { L with long := { L.long with jt := Function.update L.long.jt p (L.long.jt p + 1) } }

def FcodeLayout.markJf (L : FcodeLayout) (p : ℕ) : FcodeLayout :=
  { L with long := { L.long with jf := Function.update L.long.jf p (L.long.jf p + 1) } }

/-- `dst = ftail -= room; p->offset = dst - fstart`. -/
def FcodeLayout.reserve (L : FcodeLayout) (p room : ℕ) : FcodeLayout :=
  { L with ftail := L.ftail - room, offset := Function.update L.offset p (L.ftail - room) }

/-- The part of `convert_code_r` behind its two calls. `none` is a write in front of
the array or a null edge beside another edge. -/
def FcodeLayout.place (G : Graph) (L : FcodeLayout) (p : ℕ) : Option (Bool × FcodeLayout) :=
  let room := room G L.long p
  if L.ftail < room then none
  else
    let L := L.reserve p room
    let slen := slength (G.code p).1
    let stmts := (G.code p).1.map FilterStmt.insn
    let s := (G.code p).2
    match G.edge p true, G.edge p false with
    | none, _ => some (true, L.write (stmts ++ [s.insn]) room)
    | some _, none => none
    | some t, some f =>
      match placeSide (L.off p slen t) (L.long.jt p) [] with
      | none => some (false, L.markJt p)
      | some (jt, extrajmps) =>
        match placeSide (L.off p slen f) (L.long.jf p) extrajmps with
        | none => some (false, L.markJf p)
        | some (jf, extrajmps) =>
          some (true, L.write (stmts ++ ⟨s.code, jt, jf, s.k⟩ :: extrajmps) room)

/-- `convert_code_r`; the flag is its result. -/
def convertCode (G : Graph) : ℕ → Option ℕ → FcodeLayout → Option (Bool × FcodeLayout)
  | _, none, L => some (true, L)
  | 0, some _, _ => none
  | fuel + 1, some p, L =>
    if p ∈ L.mark then some (true, L)
    else do
      let (ok, L) ← convertCode G fuel (G.edge p false) { L with mark := insert p L.mark }
      if ok then
        let (ok, L) ← convertCode G fuel (G.edge p true) L
        if ok then L.place G p else return (false, L)
      else return (false, L)

/-- The loop of `icode_to_fcode`, for a number of tries. -/
def icodeToFcode (G : Graph) (root : ℕ) : ℕ → FcodeLayout → Option (List Insn)
  | 0, _ => none
  | tries + 1, L => do
    let (n, _) ← countStmts G L.long G.size (some root) ∅
    let (ok, L) ← convertCode G G.size (some root) { L with mark := ∅, ftail := n, fcode := [] }
    if ok then return List.replicate L.ftail zeroInsn ++ L.fcode
    else icodeToFcode G root tries L

/-- Before the first try. -/
def FcodeLayout.start : FcodeLayout where
  mark := ∅
  long := { jt := fun _ => 0, jf := fun _ => 0 }
  offset _ := 0
  ftail := 0
  fcode := []

/-! ## One side of a branch -/

/-- Only a side that has not been made long is out of reach. -/
theorem placeSide_none {off : UInt32} {long : ℕ} {extrajmps : List Insn}
    (h : placeSide off long extrajmps = none) : long = 0 := by
  unfold placeSide at h
  split at h
  · split at h
    · assumption
    · cases h
  · cases h

/-- A side is in reach, or a jump of 32 bits is inserted for it. -/
theorem placeSide_some {off : UInt32} {long : ℕ} {extrajmps extra : List Insn} {x : UInt8}
    (hfew : extrajmps.length ≤ 1) (h : placeSide off long extrajmps = some (x, extra)) :
    (extra = extrajmps ∧ x.toNat = off.toNat) ∨
      ∃ k, extra = extrajmps ++ [farJump k] ∧ long ≠ 0 ∧ x.toNat = extrajmps.length ∧
        k.toNat + extrajmps.length + 1 = off.toNat := by
  unfold placeSide at h
  split at h
  · rename_i hfar
    split at h
    · cases h
    · rename_i hlong
      cases h
      have hoff : 256 ≤ off.toNat := hfar
      refine .inr ⟨_, rfl, hlong, ?_, ?_⟩
      · rw [UInt8.toNat_ofNat']
        exact Nat.mod_eq_of_lt (by omega)
      · have hsmall : (UInt32.ofNat (extrajmps.length + 1)).toNat = extrajmps.length + 1 := by
          rw [UInt32.toNat_ofNat']
          exact Nat.mod_eq_of_lt (by omega)
        rw [UInt32.toNat_sub_of_le _ _ (UInt32.le_iff_toNat_le.mpr (by omega)), hsmall]
        omega
  · rename_i hnear
    cases h
    refine .inl ⟨rfl, ?_⟩
    have hoff : off.toNat < 256 := Nat.lt_of_not_le hnear
    rw [UInt32.toNat_toUInt8]
    exact Nat.mod_eq_of_lt hoff

/-- The offset to a block that is placed further behind. -/
theorem off_toNat {L : FcodeLayout} {p slen t d : ℕ} (h : L.offset t = L.offset p + slen + 1 + d)
    (hd : d < 2 ^ 32) : (L.off p slen t).toNat = d := by
  have heq : (L.offset t : ℤ) - (L.offset p + slen) - 1 = (d : ℤ) := by omega
  rw [FcodeLayout.off, heq, UInt32.ofInt, UInt32.toNat_ofNat']
  omega

/-! ## What is placed -/

/-- The instruction at a place of the array. -/
def FcodeLayout.at (L : FcodeLayout) (a : ℕ) : Option Insn :=
  if a < L.ftail then none else L.fcode[a - L.ftail]?

/-- A side of the branch at `a` leads to `target`, at once or by an inserted jump. -/
def Lands (L : FcodeLayout) (a : ℕ) (x : UInt8) (target : ℕ) : Prop :=
  a + 1 + x.toNat = target ∨
    ∃ k, L.at (a + 1 + x.toNat) = some (farJump k) ∧ a + 1 + x.toNat + 1 + k.toNat = target

/-- A block has its statements and its branch in the array. -/
structure Placed (G : Graph) (L : FcodeLayout) (p : ℕ) : Prop where
  low : L.ftail ≤ L.offset p
  high : L.offset p < L.ftail + L.fcode.length
  stmts : ∀ j t, (G.code p).1[j]? = some t → L.at (L.offset p + j) = some t.insn
  branch : ∃ jt jf : UInt8,
    L.at (L.offset p + (G.code p).1.length) = some ⟨(G.code p).2.code, jt, jf, (G.code p).2.k⟩ ∧
      ∀ side t, G.edge p side = some t →
        Lands L (L.offset p + (G.code p).1.length) (if side then jt else jf) (L.offset t)

/-- An instruction at `a` that passes the validation of `N` instructions. -/
def InsnFits (N a : ℕ) (p : Insn) : Prop :=
  checkInsn N a p ∧ (decodeOp p.code = some .ja → a + 1 + p.k.toNat < 2 ^ 32)

/-- Every instruction in the array passes the validation, and no jump wraps. -/
structure Good (G : Graph) (N : ℕ) (L : FcodeLayout) : Prop where
  total : L.ftail + L.fcode.length = N
  check : ∀ a p, L.at a = some p → InsnFits N a p
  last : ∀ p, L.fcode.getLast? = some p → bpfClass p.code = bpfRet

/-- A block is marked once on each side, and only if it has edges. -/
structure Long.Ok (G : Graph) (long : Long) : Prop where
  le_one : ∀ i, long.jt i ≤ 1 ∧ long.jf i ≤ 1
  of_ret : ∀ i, G.edge i true = none → long.jt i = 0 ∧ long.jf i = 0

/-! ## Instructions in front of an array -/

section Front

variable {G : Graph} {L L' : FcodeLayout} {N : ℕ} {body : List Insn}

/-- `L'` has `body` in front of what `L` has. -/
structure Front (body : List Insn) (L L' : FcodeLayout) : Prop where
  fcode : L'.fcode = body ++ L.fcode
  ftail : L'.ftail + body.length = L.ftail

/-- What was there stays in its place. -/
theorem Front.at_of_le (h : Front body L L') {a : ℕ} (ha : L.ftail ≤ a) : L'.at a = L.at a := by
  have hle := h.ftail
  unfold FcodeLayout.at
  rw [if_neg (by omega), if_neg (by omega), h.fcode, List.getElem?_append_right (by omega)]
  congr 1
  omega

/-- The new instructions stand in front of it. -/
theorem Front.at_body (h : Front body L L') {j : ℕ} (hj : j < body.length) :
    L'.at (L'.ftail + j) = body[j]? := by
  unfold FcodeLayout.at
  rw [if_neg (by omega), h.fcode, Nat.add_sub_cancel_left, List.getElem?_append_left hj]

/-- Nothing has been put in front. -/
theorem Front.refl (L : FcodeLayout) : Front [] L L := ⟨rfl, rfl⟩

/-- Two pieces, one in front of the other. -/
theorem Front.trans {L'' : FcodeLayout} {body' : List Insn} (h : Front body L L')
    (h' : Front body' L' L'') : Front (body' ++ body) L L'' := by
  have h1 := h.ftail
  have h2 := h'.ftail
  refine ⟨by rw [h'.fcode, h.fcode, List.append_assoc], ?_⟩
  rw [List.length_append]
  omega

/-- A jump lands where it did. -/
theorem Front.lands (h : Front body L L') {a t : ℕ} {x : UInt8} (ha : L.ftail ≤ a)
    (hl : Lands L a x t) : Lands L' a x t := by
  rcases hl with hl | ⟨k, hk, ht⟩
  · exact .inl hl
  · exact .inr ⟨k, (h.at_of_le (by omega)).trans hk, ht⟩

/-- A placed block stays as it is, if its place and those of its targets do. -/
theorem Placed.front {p : ℕ} (h : Placed G L p) (hfront : Front body L L')
    (hp : L'.offset p = L.offset p)
    (ht : ∀ side t, G.edge p side = some t → L'.offset t = L.offset t) : Placed G L' p := by
  have hlow := h.low
  have hlen := hfront.ftail
  obtain ⟨jt, jf, hbranch, hlands⟩ := h.branch
  refine ⟨?_, ?_, fun j t hj => ?_, jt, jf, ?_, fun side t hside => ?_⟩
  · omega
  · have hhigh := h.high
    rw [hfront.fcode, List.length_append, hp]
    omega
  · rw [hp, hfront.at_of_le (by omega)]
    exact h.stmts j t hj
  · rw [hp, hfront.at_of_le (by omega)]
    exact hbranch
  · rw [hp, ht side t hside]
    exact hfront.lands (by omega) (hlands side t hside)

/-- The instructions of a room, by their place in it. -/
theorem body_cases {stmts extra zeros : List Insn} {s p : Insn} {j : ℕ}
    (h : (stmts ++ s :: (extra ++ zeros))[j]? = some p) :
    p ∈ stmts ∨ (j = stmts.length ∧ p = s) ∨
      (∃ e, j = stmts.length + 1 + e ∧ extra[e]? = some p) ∨ p ∈ zeros := by
  by_cases hj : j < stmts.length
  · rw [List.getElem?_append_left hj] at h
    exact .inl (List.mem_of_getElem? h)
  · rw [List.getElem?_append_right (Nat.le_of_not_lt hj)] at h
    obtain ⟨d, rfl⟩ := Nat.exists_eq_add_of_le (Nat.le_of_not_lt hj)
    rw [Nat.add_sub_cancel_left] at h
    cases d with
    | zero =>
        cases h
        exact .inr (.inl ⟨rfl, rfl⟩)
    | succ d =>
        rw [List.getElem?_cons_succ] at h
        by_cases hd : d < extra.length
        · rw [List.getElem?_append_left hd] at h
          exact .inr (.inr (.inl ⟨d, by omega, h⟩))
        · rw [List.getElem?_append_right (Nat.le_of_not_lt hd)] at h
          exact .inr (.inr (.inr (List.mem_of_getElem? h)))

end Front

/-- An instruction has a place in the array. -/
theorem at_lt {L : FcodeLayout} {a : ℕ} {p : Insn} (h : L.at a = some p) :
    a < L.ftail + L.fcode.length := by
  unfold FcodeLayout.at at h
  split at h
  · cases h
  · have hlt := (List.getElem?_eq_some_iff.mp h).1
    omega

/-! ## Placing a block -/

/-- A plain statement fits anywhere. -/
theorem fits_plain {t : FilterStmt} (h : t.Plain) (N a : ℕ) : InsnFits N a t.insn := by
  obtain ⟨m, hm, hmem⟩ := h
  refine ⟨checkInsn_move (p := t.insn) hm hmem N a, fun hja => ?_⟩
  rw [show decodeOp t.insn.code = _ from hm] at hja
  cases hja

theorem decode_zeroInsn : decodeOp zeroInsn.code = some (.move .ldImm) := by decide

/-- The instruction of zeros fits anywhere. -/
theorem fits_zeroInsn (N a : ℕ) : InsnFits N a zeroInsn := by
  refine ⟨checkInsn_move (p := zeroInsn) decode_zeroInsn (fun h => nomatch h) N a, fun hja => ?_⟩
  rw [decode_zeroInsn] at hja
  cases hja

theorem decode_farJump (k : UInt32) : decodeOp (farJump k).code = some .ja := by
  show decodeOp (bpfJmp ||| bpfJa) = _
  decide

/-- A far jump fits when it lands in the program. -/
theorem fits_farJump {N a : ℕ} {k : UInt32} (hN : N < 2 ^ 32) (h : a + 1 + k.toNat < N) :
    InsnFits N a (farJump k) := by
  have hlt : a + 1 + (farJump k).k.toNat < 2 ^ 32 := h.trans hN
  refine ⟨checkInsn_of_ja (decode_farJump k) ?_, fun _ => hlt⟩
  rw [jaTarget, Nat.mod_eq_of_lt hlt]
  exact h

theorem class_ret : bpfClass (bpfRet ||| bpfK) = bpfRet := by decide

theorem fits_ret {N a : ℕ} {v : UInt32} : InsnFits N a ⟨bpfRet ||| bpfK, 0, 0, v⟩ := by
  refine ⟨checkInsn_of_ret class_ret, fun hja => ?_⟩
  rw [show decodeOp _ = _ from decode_ret] at hja
  cases hja

section Place

variable {G : Graph} {L L' : FcodeLayout} {N p : ℕ} {body : List Insn}

/-- Instructions that fit may be put in front. -/
theorem Good.front (h : Good G N L) (hfront : Front body L L')
    (hfits : ∀ j q, body[j]? = some q → InsnFits N (L'.ftail + j) q)
    (hlast : L.fcode = [] → ∀ q, body.getLast? = some q → bpfClass q.code = bpfRet) :
    Good G N L' := by
  have hlen := hfront.ftail
  have htotal := h.total
  refine ⟨?_, fun a q hq => ?_, fun q hq => ?_⟩
  · rw [hfront.fcode, List.length_append]
    omega
  · by_cases ha : L.ftail ≤ a
    · rw [hfront.at_of_le ha] at hq
      exact h.check a q hq
    · by_cases ha' : a < L'.ftail
      · rw [FcodeLayout.at, if_pos ha'] at hq
        cases hq
      · obtain ⟨j, rfl⟩ := Nat.exists_eq_add_of_le (Nat.le_of_not_lt ha')
        rw [hfront.at_body (by omega)] at hq
        exact hfits j q hq
  · rw [hfront.fcode] at hq
    by_cases hnil : L.fcode = []
    · rw [hnil, List.append_nil] at hq
      exact hlast hnil q hq
    · rw [List.getLast?_append_of_ne_nil _ hnil] at hq
      exact h.last q hq

/-- A block is placed by its statements, its branch, and whatever follows. -/
theorem Placed.of_front (hfront : Front body L L') (hoff : L'.offset p = L'.ftail) (jt jf : UInt8)
    (rest : List Insn)
    (hbody : body =
      (G.code p).1.map FilterStmt.insn ++ ⟨(G.code p).2.code, jt, jf, (G.code p).2.k⟩ :: rest)
    (hlands : ∀ side t, G.edge p side = some t →
      Lands L' (L'.ftail + (G.code p).1.length) (if side then jt else jf) (L'.offset t)) :
    Placed G L' p := by
  have hlen : (G.code p).1.length < body.length := by
    rw [hbody, List.length_append, List.length_map, List.length_cons]
    omega
  refine ⟨hoff.ge, ?_, fun j t hj => ?_, jt, jf, ?_, fun side t hside => ?_⟩
  · rw [hoff, hfront.fcode, List.length_append]
    omega
  · have hlt := (List.getElem?_eq_some_iff.mp hj).1
    rw [hoff, hfront.at_body (by omega), hbody, List.getElem?_append_left (by simpa using hlt),
      List.getElem?_map, hj]
    rfl
  · rw [hoff, hfront.at_body hlen, hbody, List.getElem?_append_right (by simp), List.length_map,
      Nat.sub_self]
    rfl
  · rw [hoff]
    exact hlands side t hside

/-- A side leads to its target, if the jumps that are inserted for it follow the
branch. -/
theorem lands_of_placeSide {off : UInt32} {long a target : ℕ} {extrajmps extra : List Insn}
    {x : UInt8} (h : placeSide off long extrajmps = some (x, extra)) (hfew : extrajmps.length ≤ 1)
    (hat : ∀ e q, extra[e]? = some q → L.at (a + 1 + e) = some q)
    (htarget : a + 1 + off.toNat = target) : Lands L a x target := by
  rcases placeSide_some hfew h with ⟨-, hx⟩ | ⟨k, rfl, -, hx, hk⟩
  · left
    omega
  · right
    refine ⟨k, ?_, by omega⟩
    rw [hx]
    refine hat _ _ ?_
    rw [List.getElem?_append_right (Nat.le_refl _), Nat.sub_self]
    rfl

/-- Inserted jumps stay in the program. -/
def Inserted (N a : ℕ) (extrajmps : List Insn) : Prop :=
  ∀ e q, extrajmps[e]? = some q → ∃ k, q = farJump k ∧ a + 1 + e + 1 + k.toNat < N

/-- A long side adds one jump to those behind the branch. -/
theorem Inserted.placeSide {off : UInt32} {long a : ℕ} {extrajmps extra : List Insn} {x : UInt8}
    (hins : Inserted N a extrajmps) (h : placeSide off long extrajmps = some (x, extra))
    (hfew : extrajmps.length ≤ 1) (htarget : a + 1 + off.toNat < N) : Inserted N a extra := by
  rcases placeSide_some hfew h with ⟨rfl, -⟩ | ⟨k, rfl, -, -, hk⟩
  · exact hins
  · intro e q hq
    by_cases he : e < extrajmps.length
    · rw [List.getElem?_append_left he] at hq
      exact hins e q hq
    · rw [List.getElem?_append_right (Nat.le_of_not_lt he)] at hq
      obtain ⟨d, rfl⟩ := Nat.exists_eq_add_of_le (Nat.le_of_not_lt he)
      rw [Nat.add_sub_cancel_left] at hq
      cases d with
      | zero =>
          cases hq
          exact ⟨k, rfl, by omega⟩
      | succ d => cases hq

/-- What `place` does when it does not ask for another try. -/
structure Written (G : Graph) (N p : ℕ) (L L' : FcodeLayout) : Prop where
  mark : L'.mark = L.mark
  long : L'.long = L.long
  front : ∃ body, Front body L L' ∧ body.length = room G L.long p
  offset : ∀ i, i ≠ p → L'.offset i = L.offset i
  start : L'.offset p = L'.ftail
  placed : Placed G L' p
  good : Good G N L'

/-- The place that is reserved is that of the block. -/
theorem reserve_offset (L : FcodeLayout) (p room : ℕ) :
    (L.reserve p room).offset p = L.ftail - room := Function.update_self _ _ _

/-- The other blocks keep theirs. -/
theorem reserve_offset_of_ne (L : FcodeLayout) {p i : ℕ} (room : ℕ) (h : i ≠ p) :
    (L.reserve p room).offset i = L.offset i := Function.update_of_ne h _ _

/-- A block's room is filled with its code and zeros. -/
theorem write_front (p : ℕ) (stmts extra : List Insn) (s : Insn) {room : ℕ}
    (hroom : room ≤ L.ftail) (hlen : stmts.length + 1 + extra.length ≤ room) :
    ∃ zeros, (∀ z ∈ zeros, z = zeroInsn) ∧
      zeros.length = room - (stmts.length + 1 + extra.length) ∧
      Front (stmts ++ s :: (extra ++ zeros)) L
        ((L.reserve p room).write (stmts ++ s :: extra) room) := by
  refine ⟨List.replicate (room - (stmts.length + 1 + extra.length)) zeroInsn,
    fun z hz => (List.mem_replicate.mp hz).2, List.length_replicate, ?_, ?_⟩
  · have hcode : (stmts ++ s :: extra).length = stmts.length + 1 + extra.length := by
      rw [List.length_append, List.length_cons]
      omega
    simp only [FcodeLayout.write, FcodeLayout.reserve, hcode, List.append_assoc, List.cons_append]
  · simp only [FcodeLayout.write, FcodeLayout.reserve, List.length_append, List.length_cons,
      List.length_replicate]
    omega

/-- A block that returns. -/
theorem place_ret (hgood : Good G N L) {v : UInt32} (hcode : G.code p = ([], ⟨bpfRet ||| bpfK, v⟩))
    (hedge : ∀ side, G.edge p side = none) (hlong : L.long.Ok G)
    (hroom : room G L.long p ≤ L.ftail) :
    ∃ L', L.place G p = some (true, L') ∧ Written G N p L L' := by
  -- a return is never long: it is one instruction
  have hone : room G L.long p = 1 := by
    obtain ⟨hjt, hjf⟩ := hlong.of_ret p (hedge true)
    rw [room, hcode, hjt, hjf]
    rfl
  obtain ⟨zeros, -, hzeros, hfront⟩ :=
    write_front p [] [] ⟨bpfRet ||| bpfK, 0, 0, v⟩ hroom
      (by simp [hone])
  obtain rfl : zeros = [] := by
    rw [hone] at hzeros
    exact List.length_eq_zero_iff.mp hzeros
  refine ⟨(L.reserve p (room G L.long p)).write [⟨bpfRet ||| bpfK, 0, 0, v⟩] (room G L.long p),
    ?_, rfl, rfl, ⟨_, hfront, by rw [hone]; rfl⟩, ?_, reserve_offset L p _, ?_, ?_⟩
  · simp only [FcodeLayout.place, Nat.not_lt.mpr hroom, hedge, hcode, List.map_nil]
    rfl
  · exact fun i hi => reserve_offset_of_ne L _ hi
  · refine Placed.of_front hfront ?_ 0 0 [] ?_ ?_
    · exact reserve_offset L p _
    · rw [hcode]
      rfl
    · -- and leads nowhere
      intro side t hside
      rw [hedge side] at hside
      cases hside
  · refine hgood.front hfront (fun j q hq => ?_) fun _ q hq => ?_
    · have hmem := List.mem_of_getElem? hq
      rw [List.nil_append, List.append_nil, List.mem_singleton] at hmem
      rw [hmem]
      exact fits_ret
    · cases hq
      exact class_ret

/-- A block that tests is written behind its jumps have been found: those that are
inserted stay in the program, and both sides land on their targets. -/
theorem written_test (hN : N < 2 ^ 32) (hgood : Good G N L) {t : Test} (hcode : G.code p = t.code)
    (hne : ∀ side i, G.edge p side = some i → i ≠ p) (hfcode : L.fcode ≠ [])
    (hroom : room G L.long p ≤ L.ftail) {x y : UInt8} {extra : List Insn} {a : ℕ}
    (ha : a = L.ftail - room G L.long p + t.stmts.length)
    (hlen : t.stmts.length + 1 + extra.length ≤ room G L.long p) (hins : Inserted N a extra)
    (htargets : ∀ i, (∃ side, G.edge p side = some i) → L.offset i < N)
    (hedges : ∀ side, ∃ i, G.edge p side = some i)
    (hlands : ∀ M : FcodeLayout, (∀ e q, extra[e]? = some q → M.at (a + 1 + e) = some q) →
      ∀ side i, G.edge p side = some i → Lands M a (if side then x else y) (L.offset i)) :
    Written G N p L ((L.reserve p (room G L.long p)).write
      (t.stmts.map FilterStmt.insn ++ ⟨t.s.code, x, y, t.s.k⟩ :: extra) (room G L.long p)) := by
  have hstmts : (t.stmts.map FilterStmt.insn).length = t.stmts.length := List.length_map ..
  obtain ⟨zeros, hzero, hzeros, hfront⟩ := write_front p
    (t.stmts.map FilterStmt.insn) extra ⟨t.s.code, x, y, t.s.k⟩ hroom
    (by rw [hstmts]; exact hlen)
  rw [hstmts] at hzeros
  have hbody : (t.stmts.map FilterStmt.insn ++ ⟨t.s.code, x, y, t.s.k⟩ :: (extra ++ zeros)).length =
      room G L.long p := by
    rw [List.length_append, List.length_cons, List.length_append, hstmts, hzeros]
    omega
  have hoff : (L.reserve p (room G L.long p)).offset p = L.ftail - room G L.long p :=
    reserve_offset L p _
  have hoff_ne : ∀ i, i ≠ p → (L.reserve p (room G L.long p)).offset i = L.offset i :=
    fun i hi => reserve_offset_of_ne L _ hi
  generalize hK : (L.reserve p (room G L.long p)).write
    (t.stmts.map FilterStmt.insn ++ ⟨t.s.code, x, y, t.s.k⟩ :: extra)
    (room G L.long p) = K at hfront ⊢
  have hKoff : ∀ i, K.offset i = (L.reserve p (room G L.long p)).offset i := fun i => by
    rw [← hK]
    rfl
  have hKftail : K.ftail = L.ftail - room G L.long p := by
    rw [← hK]
    rfl
  have hstart : K.offset p = K.ftail := (hKoff p).trans (hoff.trans hKftail.symm)
  -- the inserted jumps stand behind the branch
  have hat : ∀ e q, extra[e]? = some q → K.at (a + 1 + e) = some q := by
    intro e q hq
    have he := (List.getElem?_eq_some_iff.mp hq).1
    have hpos : a + 1 + e = K.ftail + (t.stmts.length + 1 + e) := by omega
    rw [hpos, hfront.at_body (by omega), List.getElem?_append_right (by omega), hstmts,
      show t.stmts.length + 1 + e - t.stmts.length = e + 1 by omega, List.getElem?_cons_succ,
      List.getElem?_append_left he]
    exact hq
  have hland : ∀ side i, G.edge p side = some i →
      Lands K a (if side then x else y) (L.offset i) := hlands K hat
  refine ⟨by rw [← hK]; rfl, by rw [← hK]; rfl, ⟨_, hfront, hbody⟩,
    fun i hi => (hKoff i).trans (hoff_ne i hi), hstart, ?_, ?_⟩
  · refine Placed.of_front hfront hstart x y (extra ++ zeros) ?_
      fun side i hi => ?_
    · rw [hcode]
      rfl
    · rw [hKoff, hoff_ne i (hne side i hi), hcode, hKftail]
      exact ha ▸ hland side i hi
  · refine hgood.front hfront (fun j q hq => ?_) fun hnil => absurd hnil hfcode
    have htotal := hgood.total
    have hlenK : K.ftail + K.fcode.length = N := by
      rw [hfront.fcode, List.length_append]
      omega
    rcases body_cases hq with hmem | ⟨rfl, rfl⟩ | ⟨e, rfl, hextra⟩ | hmem
    · obtain ⟨u, hu, rfl⟩ := List.mem_map.mp hmem
      exact fits_plain (t.s0.plain u hu) _ _
    · obtain ⟨cond, src, hop⟩ := t.cond
      have hpos : K.ftail + (t.stmts.map FilterStmt.insn).length = a := by omega
      rw [hpos]
      refine ⟨checkInsn_of_jmp (p := ⟨t.s.code, x, y, t.s.k⟩) hop fun taken => ?_, fun hja => ?_⟩
      · obtain ⟨i, hi⟩ := hedges taken
        have hlt := htargets i ⟨taken, hi⟩
        have hjmp : jmpTarget a ⟨t.s.code, x, y, t.s.k⟩ taken =
            a + 1 + (if taken then x else y).toNat := rfl
        rw [hjmp]
        rcases hland taken i hi with heq | ⟨k, hk, -⟩
        · omega
        · have hend := at_lt hk
          omega
      · rw [show decodeOp t.s.code = _ from hop] at hja
        cases hja
    · obtain ⟨k, rfl, hk⟩ := hins e q hextra
      have hpos : K.ftail + ((t.stmts.map FilterStmt.insn).length + 1 + e) = a + 1 + e := by omega
      rw [hpos]
      exact fits_farJump hN hk
    · rw [hzero q hmem]
      exact fits_zeroInsn _ _

/-- A block that tests, whose edges lead to blocks that are placed: it is placed, or
marked because one of its edges is too long. -/
theorem place_test (hN : N < 2 ^ 32) (hgood : Good G N L) {t : Test} (hcode : G.code p = t.code)
    {jt jf : ℕ} (hjt : G.edge p true = some jt) (hjf : G.edge p false = some jf)
    (hne : ∀ side i, G.edge p side = some i → i ≠ p)
    (hplaced : ∀ side i, G.edge p side = some i → Placed G L i)
    (hroom : room G L.long p ≤ L.ftail) :
    (∃ L', L.place G p = some (true, L') ∧ Written G N p L L') ∨
      (L.long.jt p = 0 ∧ L.place G p = some (false, (L.reserve p (room G L.long p)).markJt p)) ∨
      (L.long.jf p = 0 ∧ L.place G p = some (false, (L.reserve p (room G L.long p)).markJf p)) := by
  obtain ⟨K, hK⟩ : ∃ K, K = L.reserve p (room G L.long p) := ⟨_, rfl⟩
  have hroom_eq : room G L.long p = t.stmts.length + 1 + L.long.jt p + L.long.jf p := by
    rw [room, hcode]
    rfl
  have hplace : L.place G p =
      match placeSide (K.off p t.stmts.length jt) (L.long.jt p) [] with
      | none => some (false, K.markJt p)
      | some (x, extrajmps) =>
        match placeSide (K.off p t.stmts.length jf) (L.long.jf p) extrajmps with
        | none => some (false, K.markJf p)
        | some (y, extrajmps) => some (true, K.write
            (t.stmts.map FilterStmt.insn ++ ⟨t.s.code, x, y, t.s.k⟩ :: extrajmps)
              (room G L.long p)) := by
    have hlong : K.long = L.long := by
      rw [hK]
      rfl
    simp only [FcodeLayout.place, Nat.not_lt.mpr hroom, if_false, hjt, hjf, hcode, ← hK, hlong]
    rfl
  -- every target stands behind the room
  have htarget : ∀ side i, G.edge p side = some i → L.offset i < N ∧
      L.ftail - room G L.long p + t.stmts.length + 1 + (K.off p t.stmts.length i).toNat =
        L.offset i := by
    intro side i hi
    have hlow := (hplaced side i hi).low
    have hhigh := (hplaced side i hi).high
    have htotal := hgood.total
    have hoffp : K.offset p = L.ftail - room G L.long p := by rw [hK, reserve_offset]
    have hoffi : K.offset i = L.offset i := by
      rw [hK, reserve_offset_of_ne L _ (hne side i hi)]
    have hd : K.offset i = K.offset p + t.stmts.length + 1 +
        (L.offset i - (K.offset p + t.stmts.length + 1)) := by omega
    rw [off_toNat hd (by omega)]
    omega
  rw [hplace]
  cases hx : placeSide (K.off p t.stmts.length jt) (L.long.jt p) [] with
  | none => exact .inr (.inl ⟨placeSide_none hx, by rw [← hK]⟩)
  | some r =>
      obtain ⟨x, extra1⟩ := r
      cases hy : placeSide (K.off p t.stmts.length jf) (L.long.jf p) extra1 with
      | none => exact .inr (.inr ⟨placeSide_none hy, by simp only [hy, ← hK]⟩)
      | some r =>
          obtain ⟨y, extra2⟩ := r
          left
          obtain ⟨hjtN, hjt_to⟩ := htarget true jt hjt
          obtain ⟨hjfN, hjf_to⟩ := htarget false jf hjf
          have hnil : (([] : List Insn)).length ≤ 1 := Nat.zero_le 1
          -- the jumps that are inserted have room
          have hlen1 : extra1.length ≤ L.long.jt p ∧ extra1.length ≤ 1 := by
            rcases placeSide_some hnil hx with ⟨rfl, -⟩ | ⟨k, rfl, hlong, -, -⟩
            · exact ⟨Nat.zero_le _, Nat.zero_le _⟩
            · exact ⟨Nat.pos_of_ne_zero hlong, le_rfl⟩
          have hlen2 : extra2.length ≤ extra1.length + L.long.jf p := by
            rcases placeSide_some hlen1.2 hy with ⟨rfl, -⟩ | ⟨k, rfl, hlong, -, -⟩
            · exact Nat.le_add_right _ _
            · rw [List.length_append, List.length_singleton]
              omega
          have hsub : ∀ (e : ℕ) (q : Insn), extra1[e]? = some q → extra2[e]? = some q := by
            intro e q hq
            rcases placeSide_some hlen1.2 hy with ⟨rfl, -⟩ | ⟨k, rfl, -, -, -⟩
            · exact hq
            · rw [List.getElem?_append_left (List.getElem?_eq_some_iff.mp hq).1]
              exact hq
          have hins0 : Inserted N (L.ftail - room G L.long p + t.stmts.length) [] :=
            fun e q (hq : ([] : List Insn)[e]? = some q) => nomatch hq
          have hins : Inserted N (L.ftail - room G L.long p + t.stmts.length) extra2 :=
            (hins0.placeSide hx hnil (by omega)).placeSide hy hlen1.2 (by omega)
          have hfcode : L.fcode ≠ [] := by
            intro hnil
            have hlow := (hplaced true jt hjt).low
            have hhigh := (hplaced true jt hjt).high
            rw [hnil, List.length_nil] at hhigh
            omega
          simp only [hy]
          refine ⟨_, rfl,
            hK ▸ written_test hN hgood hcode hne hfcode hroom rfl (by omega) hins ?_ ?_ ?_⟩
          · rintro i ⟨side, hi⟩
            exact (htarget side i hi).1
          · intro side
            cases side
            · exact ⟨jf, hjf⟩
            · exact ⟨jt, hjt⟩
          · intro M hat side i hi
            have hto := (htarget side i hi).2
            cases side with
            | true =>
                obtain rfl : i = jt := Option.some.inj (hi.symm.trans hjt)
                exact lands_of_placeSide hx hnil (fun e q hq => hat e q (hsub e q hq)) hto
            | false =>
                obtain rfl : i = jf := Option.some.inj (hi.symm.trans hjf)
                exact lands_of_placeSide hy hlen1.2 hat hto

end Place

end MobiPerf.Capture
