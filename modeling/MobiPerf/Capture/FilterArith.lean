import Mathlib.Data.Fintype.Card
import MobiPerf.Capture.FilterExpr

/-!
# Capture.FilterArith — arithmetic in filter expressions

A relation compares two arithmetic expressions over constants, the packet length and
loads from the link layer. The code of an expression leaves its value in a word of
the scratch memory, which `alloc_reg` chooses among the 16 that are not in use, and
which is free again when the value has been used.

`gen_runs` says that the code computes the expression and keeps every other register
in use, and `gen_isSome_iff` that registers run out only if the expression needs more
than are free.
-/

namespace MobiPerf.Capture

open Lib

/-! ## Registers -/

abbrev Reg := Fin bpfMemwords

instance : NeZero bpfMemwords := ⟨by decide⟩

/-- `regused` and `curreg`. -/
structure RegAlloc where
  regused : Reg → Bool
  curreg : Reg

def initRegs : RegAlloc where
  regused _ := false
  curreg := 0

/-- The loop of `alloc_reg`; `none` is the error "too many registers needed to
evaluate expression". -/
def allocLoop : ℕ → RegAlloc → Option (Reg × RegAlloc)
  | 0, _ => none
  | n + 1, s =>
    if s.regused s.curreg then allocLoop n { s with curreg := s.curreg + 1 }
    else some (s.curreg, { s with regused := Function.update s.regused s.curreg true })

def allocReg (s : RegAlloc) : Option (Reg × RegAlloc) := allocLoop bpfMemwords s

def freeReg (s : RegAlloc) (n : Reg) : RegAlloc :=
  { s with regused := Function.update s.regused n false }

/-! ## Expressions -/

inductive Arth where
  | loadi (val : UInt32)
  | loadlen
  | load (inst : Arth) (size : ℕ)
  | neg (a : Arth)
  | arth (code : Alu) (a0 a1 : Arth)

def Alu.code : Alu → UInt16
  | .add => bpfAdd
  | .sub => bpfSub
  | .mul => bpfMul
  | .div => bpfDiv
  | .and => bpfAnd
  | .or => bpfOr
  | .lsh => bpfLsh
  | .rsh => bpfRsh

def Size.code : Size → UInt16
  | .w => bpfW
  | .h => bpfH
  | .b => bpfB

def regK (n : Reg) : UInt32 := UInt32.ofNat n

def xferToX (n : Reg) : FilterStmt := ⟨bpfLdx ||| bpfMem, regK n⟩

def xferToA (n : Reg) : FilterStmt := ⟨bpfLd ||| bpfMem, regK n⟩

def stReg (n : Reg) : FilterStmt := ⟨bpfSt, regK n⟩

/-! ## Statements on registers -/

/-- The memory word of a register is its number. -/
theorem regK_toNat (n : Reg) : (regK n).toNat = n.val := by
  have hn : n.val < 16 := n.isLt
  rw [regK, UInt32.toNat_ofNat']
  omega

/-- There is such a word. -/
theorem regK_lt (n : Reg) : (regK n).toNat < bpfMemwords := by
  rw [regK_toNat]
  exact n.isLt

theorem decode_ldxMem : decodeOp (bpfLdx ||| bpfMem) = some (.move .ldxMem) := by decide
theorem decode_ldMem : decodeOp (bpfLd ||| bpfMem) = some (.move .ldMem) := by decide
theorem decode_st : decodeOp bpfSt = some (.move .st) := by decide
theorem decode_ldImm : decodeOp (bpfLd ||| bpfImm) = some (.move .ldImm) := by decide
theorem decode_ldLen : decodeOp (bpfLd ||| bpfLen) = some (.move .ldLen) := by decide
theorem decode_neg : decodeOp (bpfAlu ||| bpfNeg) = some (.move .neg) := by decide

theorem decode_ldInd (size : Size) :
    decodeOp (bpfLd ||| bpfInd ||| size.code) = some (.move (.ldInd size)) := by
  cases size <;> decide

theorem decode_alu_x (code : Alu) :
    decodeOp (bpfAlu ||| bpfX ||| code.code) = some (.move (.alu code .x)) := by
  cases code <;> decide

/-- A statement that is no jump and uses no memory is plain. -/
theorem plain_of_decode {t : FilterStmt} {m : Move} (h : decodeOp t.code = some (.move m))
    (hmem : (Op.move m).usesMem = false) : t.Plain :=
  ⟨m, h, fun huses => by rw [hmem] at huses; cases huses⟩

theorem plain_xferToX (n : Reg) : (xferToX n).Plain := ⟨_, decode_ldxMem, fun _ => regK_lt n⟩

theorem plain_xferToA (n : Reg) : (xferToA n).Plain := ⟨_, decode_ldMem, fun _ => regK_lt n⟩

theorem plain_stReg (n : Reg) : (stReg n).Plain := ⟨_, decode_st, fun _ => regK_lt n⟩

/-- The statements of a constant or of the packet's length. -/
theorem plain_leaf {t : FilterStmt} {m : Move} (h : decodeOp t.code = some (.move m))
    (hmem : (Op.move m).usesMem = false) (n : Reg) : ∀ u ∈ [t, stReg n], u.Plain := by
  intro u hu
  rcases List.mem_pair.mp hu with rfl | rfl
  · exact plain_of_decode h hmem
  · exact plain_stReg n

/-- The statements of a load. -/
theorem plain_load (size : Size) (k : UInt32) (m n : Reg) :
    ∀ t ∈ [xferToX m, ⟨bpfLd ||| bpfInd ||| size.code, k⟩, stReg n], t.Plain := by
  intro t ht
  rcases List.mem_cons.mp ht with rfl | ht
  · exact plain_xferToX m
  · exact plain_leaf (decode_ldInd size) rfl n t ht

/-- The statements of a negation. -/
theorem plain_neg (n : Reg) : ∀ t ∈ [xferToA n, ⟨bpfAlu ||| bpfNeg, 0⟩, stReg n], t.Plain := by
  intro t ht
  rcases List.mem_cons.mp ht with rfl | ht
  · exact plain_xferToA n
  · exact plain_leaf decode_neg rfl n t ht

/-- The statements of a binary operation. -/
theorem plain_arth (code : Alu) (m0 m1 n : Reg) :
    ∀ t ∈ [xferToX m1, xferToA m0, ⟨bpfAlu ||| bpfX ||| code.code, 0⟩, stReg n], t.Plain := by
  intro t ht
  rcases List.mem_cons.mp ht with rfl | ht
  · exact plain_xferToX m1
  rcases List.mem_cons.mp ht with rfl | ht
  · exact plain_xferToA m0
  · exact plain_leaf (decode_alu_x code) rfl n t ht

/-! ## Code -/

/-- `struct arth`, without protocol checks. -/
structure ArthCode where
  s : Slist
  regno : Reg

/-- The sizes that `gen_load` takes; another one is the error "data size must be 1, 2,
or 4". -/
def loadSize : ℕ → Option Size
  | 1 => some .b
  | 2 => some .h
  | 4 => some .w
  | _ => none

/-- `gen_loadi`, `gen_loadlen`, `gen_load` for `Q_LINK` behind a link header of fixed
length, `gen_neg` and `gen_arth`. -/
def Arth.gen (offLl : UInt32) : Arth → RegAlloc → Option (ArthCode × RegAlloc)
  | loadi val, s => do
    let (reg, s) ← allocReg s
    let code := newStmts [⟨bpfLd ||| bpfImm, val⟩, stReg reg] (plain_leaf decode_ldImm rfl reg)
    return (⟨newArth.sappend code, reg⟩, s)
  | loadlen, s => do
    let (regno, s) ← allocReg s
    let code := newStmts [⟨bpfLd ||| bpfLen, 0⟩, stReg regno] (plain_leaf decode_ldLen rfl regno)
    return (⟨newArth.sappend code, regno⟩, s)
  | load inst size, s => do
    let (inst, s) ← inst.gen offLl s
    let (regno, s) ← allocReg s
    let s := freeReg s inst.regno
    let size ← loadSize size
    let code := newStmts [xferToX inst.regno, ⟨bpfLd ||| bpfInd ||| size.code, offLl⟩, stReg regno]
      (plain_load size offLl inst.regno regno)
    return (⟨inst.s.sappend code, regno⟩, s)
  | neg a, s => do
    let (a, s) ← a.gen offLl s
    let code := newStmts [xferToA a.regno, ⟨bpfAlu ||| bpfNeg, 0⟩, stReg a.regno]
      (plain_neg a.regno)
    return (⟨a.s.sappend code, a.regno⟩, s)
  | arth code a0 a1, s => do
    let (a0, s) ← a0.gen offLl s
    let (a1, s) ← a1.gen offLl s
    let s := freeReg s a0.regno
    let s := freeReg s a1.regno
    let (regno, s) ← allocReg s
    let code := newStmts
      [xferToX a1.regno, xferToA a0.regno, ⟨bpfAlu ||| bpfX ||| code.code, 0⟩, stReg regno]
      (plain_arth code a0.regno a1.regno regno)
    return (⟨(a0.s.sappend a1.s).sappend code, regno⟩, s)

/-- The value of an expression on a packet: a load past its end and a division by
zero end the filter. -/
def Arth.eval (env : Env) (offLl : UInt32) : Arth → Outcome UInt32
  | loadi val => .next val
  | loadlen => .next env.wirelen
  | load inst size => (inst.eval env offLl).bind fun x =>
      match loadSize size with
      | some size => env.load size (x + offLl)
      | none => Outcome.reject
  | neg a => (a.eval env offLl).bind fun v => .next (-v)
  | arth code a0 a1 => (a0.eval env offLl).bind fun v =>
      (a1.eval env offLl).bind fun w => code.apply v w .x

/-- The registers an expression needs at a time: the value of the first operand is
kept while the second one is computed. -/
def Arth.need : Arth → ℕ
  | loadi _ => 1
  | loadlen => 1
  | load inst _ => max inst.need 2
  | neg a => a.need
  | arth _ a0 a1 => max a0.need (a1.need + 1)

/-- What the code of an expression is built from. -/
def Arth.pieces : Arth → List Piece
  | loadi _ => [.arth, .slist, .slist]
  | loadlen => [.arth, .slist, .slist]
  | load inst _ => inst.pieces ++ [.slist, .slist, .slist]
  | neg a => a.pieces ++ [.slist, .slist, .slist]
  | arth _ a0 a1 => a0.pieces ++ a1.pieces ++ [.slist, .slist, .slist, .slist]

/-- Loads have a size of 1, 2 or 4. -/
def Arth.Sized : Arth → Prop
  | loadi _ => True
  | loadlen => True
  | load inst size => inst.Sized ∧ (loadSize size).isSome
  | neg a => a.Sized
  | arth _ a0 a1 => a0.Sized ∧ a1.Sized

/-! ## Allocation -/

section Alloc

variable {s s' : RegAlloc} {n : Reg}

/-- The registers in use. -/
def RegAlloc.used (s : RegAlloc) : Finset Reg := Finset.univ.filter fun q => s.regused q

/-- The registers in use, as a set. -/
theorem mem_used {q : Reg} : q ∈ s.used ↔ s.regused q = true := by
  simp [RegAlloc.used]

/-- There are no more of them than memory words. -/
theorem RegAlloc.card_used_le (s : RegAlloc) : s.used.card ≤ bpfMemwords := by
  have hcard := Finset.card_le_univ s.used
  rwa [Fintype.card_fin] at hcard

/-- The loop finds a free register and marks it. -/
theorem allocLoop_some {k : ℕ} (h : allocLoop k s = some (n, s')) :
    s.regused n = false ∧ ∀ q, s'.regused q = (s.regused q || q = n) := by
  induction k generalizing s with
  | zero => cases h
  | succ k ih =>
      unfold allocLoop at h
      split at h
      · exact ih (s := { s with curreg := s.curreg + 1 }) h
      · rename_i hfree
        cases h
        refine ⟨Bool.eq_false_of_not_eq_true hfree, fun q => ?_⟩
        by_cases hq : q = s.curreg
        · simp [hq]
        · simp [hq]

/-- The loop fails only if it has met registers in use alone. -/
theorem allocLoop_none {k : ℕ} (h : allocLoop k s = none) :
    ∀ j < k, s.regused (s.curreg + Fin.ofNat bpfMemwords j) = true := by
  induction k generalizing s with
  | zero => exact fun j hj => absurd hj (Nat.not_lt_zero j)
  | succ k ih =>
      unfold allocLoop at h
      split at h
      · rename_i hused
        intro j hj
        cases j with
        | zero => simpa using hused
        | succ j =>
            have hrest := ih h j (Nat.lt_of_succ_lt_succ hj)
            have heq : s.curreg + Fin.ofNat bpfMemwords (j + 1) =
                s.curreg + 1 + Fin.ofNat bpfMemwords j := by
              rw [add_assoc]
              congr 1
              apply Fin.ext
              simp [Fin.ofNat, Fin.add_def, Nat.add_comm]
            rw [heq]
            exact hrest
      · cases h

/-- So does the allocation, which starts at the current one. -/
theorem allocReg_some (h : allocReg s = some (n, s')) :
    s.regused n = false ∧ ∀ q, s'.regused q = (s.regused q || q = n) := allocLoop_some h

/-- It fails only when all registers are in use. -/
theorem allocReg_none (h : allocReg s = none) : s.used.card = bpfMemwords := by
  have hall : ∀ q, s.regused q = true := by
    intro q
    have hq := allocLoop_none h (q - s.curreg).val (q - s.curreg).isLt
    rwa [Fin.ofNat_val_eq_self, add_sub_cancel] at hq
  have huniv : s.used = Finset.univ := Finset.ext fun q => by simp [mem_used, hall q]
  rw [huniv, Finset.card_univ, Fintype.card_fin]

/-- A register is found if one is free. -/
theorem allocReg_isSome_iff : (allocReg s).isSome ↔ s.used.card < bpfMemwords := by
  cases h : allocReg s with
  | none =>
      have hfull := allocReg_none h
      simp [hfull]
  | some p =>
      obtain ⟨n, s'⟩ := p
      have hfree := (allocReg_some h).1
      have hne : s.used ≠ Finset.univ := by
        intro huniv
        have hmem := huniv ▸ Finset.mem_univ n
        rw [mem_used, hfree] at hmem
        cases hmem
      have hlt := Finset.card_lt_univ_of_notMem (s := s.used) (x := n) (by simp [mem_used, hfree])
      rw [Fintype.card_fin] at hlt
      simp [hlt]

end Alloc

/-! ## Running statements -/

section Statements

variable {env : Env} {r : Regs} {n : Reg}

/-- Statements are run one after the other. -/
theorem runStmts_append (ts us : List FilterStmt) :
    runStmts env (ts ++ us) r = (runStmts env ts r).bind (runStmts env us) := by
  induction ts generalizing r with
  | nil => rfl
  | cons t ts ih =>
      simp only [List.cons_append, runStmts, Stepped.bind_assoc]
      congr 1
      funext r'
      exact ih

/-- The word of a register is always there. -/
theorem fetch_regK : r.fetch (regK n) = .next (r.mem n) := by
  have hn : (⟨(regK n).toNat, regK_lt n⟩ : Reg) = n := Fin.ext (regK_toNat n)
  rw [Regs.fetch, dif_pos (regK_lt n), hn]

/-- X is loaded from the register. -/
theorem perform_xferToX : (xferToX n).perform env r = .next (r.setX (r.mem n)) := by
  rw [perform_of_decode decode_ldxMem]
  simp only [Move.perform, xferToX, fetch_regK, Stepped.bind_next]

/-- A is loaded from the register. -/
theorem perform_xferToA : (xferToA n).perform env r = .next (r.setA (r.mem n)) := by
  rw [perform_of_decode decode_ldMem]
  simp only [Move.perform, xferToA, fetch_regK, Stepped.bind_next]

/-- A is stored in the register. -/
theorem perform_stReg :
    (stReg n).perform env r = .next { r with mem := Function.update r.mem n r.A } := by
  have hn : (⟨(regK n).toNat, regK_lt n⟩ : Reg) = n := Fin.ext (regK_toNat n)
  rw [perform_of_decode decode_st]
  simp only [Move.perform, stReg, Regs.store, dif_pos (regK_lt n), hn]

end Statements

/-! ## The code computes the expression -/

/-- The code leaves the value in its register, or ends the filter, and keeps the
registers in use. -/
def Computes (env : Env) (s : RegAlloc) (ts : List FilterStmt) (n : Reg) (r : Regs) :
    Outcome UInt32 → Prop
  | .halt x => runStmts env ts r = .halt x
  | .next v => ∃ r', runStmts env ts r = .next r' ∧ r'.mem n = v ∧
      ∀ q, s.regused q → r'.mem q = r.mem q

/-- What `gen` returns, for an expression whose loads have a size. -/
structure ArthSpec (offLl : UInt32) (a : Arth) (s : RegAlloc) (c : ArthCode) (s' : RegAlloc) :
    Prop where
  sized : a.Sized
  pieces : c.s.pieces = a.pieces
  fresh : s.regused c.regno = false
  used : ∀ q, s'.regused q = (s.regused q || q = c.regno)
  runs : ∀ env r, Computes env s c.s.stmts c.regno r (a.eval env offLl)

section Compute

variable {offLl : UInt32} {env : Env} {s s' : RegAlloc} {c : ArthCode} {r : Regs}

/-- A value in `A` is stored in a free register. -/
theorem stReg_keeps {n : Reg} (hfree : s.regused n = false) (r : Regs) :
    ({ r with mem := Function.update r.mem n r.A } : Regs).mem n = r.A ∧
      ∀ q, s.regused q →
        ({ r with mem := Function.update r.mem n r.A } : Regs).mem q = r.mem q := by
  refine ⟨Function.update_self _ _ _, fun q hq => Function.update_of_ne ?_ _ _⟩
  rintro rfl
  rw [hfree] at hq
  cases hq

/-- The register that is freed is free. -/
theorem freeReg_used (n q : Reg) :
    (freeReg s n).regused q = (s.regused q && !decide (q = n)) := by
  by_cases hq : q = n
  · simp [freeReg, hq]
  · simp [freeReg, hq]

/-- A constant or the length. -/
theorem ArthSpec.leaf {a : Arth} {t : FilterStmt} {n : Reg} {m : Move} {v : Env → UInt32}
    (halloc : allocReg s = some (n, s')) (hop : decodeOp t.code = some (.move m))
    (hmem : (Op.move m).usesMem = false)
    (hperform : ∀ env r, m.perform env t.k r = .next (r.setA (v env)))
    (heval : ∀ env, a.eval env offLl = .next (v env)) (hsized : a.Sized)
    (hpieces : a.pieces = [.arth, .slist, .slist]) :
    ArthSpec offLl a s ⟨newArth.sappend (newStmts [t, stReg n] (plain_leaf hop hmem n)), n⟩ s' := by
  obtain ⟨hfree, hused⟩ := allocReg_some halloc
  refine ⟨hsized, hpieces.symm, hfree, hused, fun env r => ?_⟩
  rw [heval]
  obtain ⟨hval, hkeep⟩ := stReg_keeps hfree (r.setA (v env))
  refine ⟨_, ?_, hval, hkeep⟩
  show runStmts env [t, stReg n] r = _
  simp only [runStmts, perform_of_decode hop, hperform, Stepped.bind_next, perform_stReg]

/-- Code that goes on with the value of another expression. -/
theorem Computes.bind {s1 : RegAlloc} {rest : List FilterStmt} {n : Reg} {o : Outcome UInt32}
    {f : UInt32 → Outcome UInt32} (hsub : ∀ q, s.regused q → s1.regused q)
    (h : Computes env s1 c.s.stmts c.regno r o)
    (hrest : ∀ v r1, r1.mem c.regno = v → (∀ q, s1.regused q → r1.mem q = r.mem q) →
      Computes env s rest n r1 (f v)) :
    Computes env s (c.s.stmts ++ rest) n r (o.bind f) := by
  cases o with
  | halt x =>
      have hrun : runStmts env c.s.stmts r = .halt x := h
      show runStmts env (c.s.stmts ++ rest) r = .halt x
      rw [runStmts_append, hrun, Stepped.bind_halt]
  | next v =>
      obtain ⟨r1, hrun, hval, hkeep⟩ := h
      have happend : runStmts env (c.s.stmts ++ rest) r = runStmts env rest r1 := by
        rw [runStmts_append, hrun, Stepped.bind_next]
      have h1 := hrest v r1 hval hkeep
      rw [Stepped.bind_next]
      cases hv : f v with
      | halt x =>
          rw [hv] at h1
          exact happend.trans h1
      | next w =>
          rw [hv] at h1
          obtain ⟨r2, hrun2, hval2, hkeep2⟩ := h1
          exact ⟨r2, happend.trans hrun2, hval2,
            fun q hq => (hkeep2 q hq).trans (hkeep q (hsub q hq))⟩

/-- Code that leaves the value in `A` and does not store. -/
def LeavesA (env : Env) (ts : List FilterStmt) (r : Regs) : Outcome UInt32 → Prop
  | .halt x => runStmts env ts r = .halt x
  | .next v => ∃ r', runStmts env ts r = .next r' ∧ r'.A = v ∧ r'.mem = r.mem

/-- Statements that compute A and leave the memory. -/
theorem leavesA_of_run {ts : List FilterStmt} {o : Outcome UInt32} (r1 : Regs)
    (hrun : runStmts env ts r = o.bind fun v => .next (r1.setA v)) (hmem : r1.mem = r.mem) :
    LeavesA env ts r o := by
  cases o with
  | halt x => exact hrun
  | next v => exact ⟨_, hrun, rfl, hmem⟩

/-- Code that ends with a store: what is in `A` before it is the value. -/
theorem computes_stReg (ts : List FilterStmt) {n : Reg} {o : Outcome UInt32}
    (hfree : s.regused n = false) (h : LeavesA env ts r o) :
    Computes env s (ts ++ [stReg n]) n r o := by
  cases o with
  | halt x =>
      show runStmts env (ts ++ [stReg n]) r = .halt x
      rw [runStmts_append, show runStmts env ts r = .halt x from h, Stepped.bind_halt]
  | next v =>
      obtain ⟨r', hrun, rfl, hmem⟩ := h
      obtain ⟨hval, hkeep⟩ := stReg_keeps hfree r'
      refine ⟨_, ?_, hval, fun q hq => (hkeep q hq).trans (congrFun hmem q)⟩
      rw [runStmts_append, hrun, Stepped.bind_next]
      simp only [runStmts, perform_stReg, Stepped.bind_next]

/-- A load from a computed offset. -/
theorem ArthSpec.load {inst : Arth} {size : ℕ} {sz : Size} {n : Reg} {s2 : RegAlloc}
    (h : ArthSpec offLl inst s c s2) (halloc : allocReg s2 = some (n, s'))
    (hsize : loadSize size = some sz) :
    ArthSpec offLl (.load inst size) s
      ⟨c.s.sappend (newStmts [xferToX c.regno, ⟨bpfLd ||| bpfInd ||| sz.code, offLl⟩, stReg n]
        (plain_load sz offLl c.regno n)), n⟩ (freeReg s' c.regno) := by
  obtain ⟨hfree, hused⟩ := allocReg_some halloc
  rw [h.used, Bool.or_eq_false_iff, decide_eq_false_iff_not] at hfree
  refine ⟨⟨h.sized, by rw [hsize]; rfl⟩, ?_, hfree.1, fun q => ?_, fun env r => ?_⟩
  · rw [Arth.pieces, ← h.pieces]
    rfl
  · rw [freeReg_used, hused, h.used]
    by_cases hq : q = c.regno
    · subst hq
      simp [h.fresh, Ne.symm hfree.2]
    · simp [hq]
  · refine Computes.bind (fun _ hq => hq) (h.runs env r) fun v r1 hval _ => ?_
    refine computes_stReg [xferToX c.regno, ⟨bpfLd ||| bpfInd ||| sz.code, offLl⟩] hfree.1 ?_
    rw [hsize]
    refine leavesA_of_run (o := env.load sz (v + offLl)) (r1.setX v) ?_ rfl
    simp only [runStmts, perform_xferToX, hval, Stepped.bind_next,
      perform_of_decode (t := ⟨bpfLd ||| bpfInd ||| sz.code, offLl⟩) (decode_ldInd sz),
      Move.perform, Regs.setX, Stepped.bind_assoc]

/-- A negation, in the register of its operand. -/
theorem ArthSpec.neg {a : Arth} (h : ArthSpec offLl a s c s') :
    ArthSpec offLl (.neg a) s
      ⟨c.s.sappend (newStmts [xferToA c.regno, ⟨bpfAlu ||| bpfNeg, 0⟩, stReg c.regno]
        (plain_neg c.regno)), c.regno⟩ s' := by
  refine ⟨h.sized, ?_, h.fresh, h.used, fun env r => ?_⟩
  · rw [Arth.pieces, ← h.pieces]
    rfl
  refine Computes.bind (fun _ hq => hq) (h.runs env r) fun v r1 hval _ => ?_
  refine computes_stReg [xferToA c.regno, ⟨bpfAlu ||| bpfNeg, 0⟩] h.fresh
    ⟨(r1.setA v).setA (-v), ?_, rfl, rfl⟩
  simp only [runStmts, perform_xferToA, hval, Stepped.bind_next,
      perform_of_decode (t := ⟨bpfAlu ||| bpfNeg, 0⟩) decode_neg, Move.perform, Regs.setA]

/-- The operands are moved into `X` and `A` when both have been computed. -/
theorem run_operands {c0 c1 : ArthCode} {v w : UInt32} {r2 : Regs} (h0 : r2.mem c0.regno = v)
    (h1 : r2.mem c1.regno = w) (ts : List FilterStmt) :
    runStmts env (xferToX c1.regno :: xferToA c0.regno :: ts) r2 =
      runStmts env ts ((r2.setX w).setA v) := by
  simp only [runStmts, perform_xferToX, perform_xferToA, h1, Stepped.bind_next, Regs.setX, h0]

/-- Behind the two `free_reg` the registers in use are those from before. -/
theorem freeReg_back {a0 a1 : Arth} {s1 s2 : RegAlloc} {c0 c1 : ArthCode}
    (h0 : ArthSpec offLl a0 s c0 s1) (h1 : ArthSpec offLl a1 s1 c1 s2) (q : Reg) :
    (freeReg (freeReg s2 c0.regno) c1.regno).regused q = s.regused q := by
  have hfresh1 := h1.fresh
  rw [h0.used, Bool.or_eq_false_iff, decide_eq_false_iff_not] at hfresh1
  rw [freeReg_used, freeReg_used, h1.used, h0.used]
  by_cases hq1 : q = c1.regno
  · simp [hq1, hfresh1.1]
  · by_cases hq0 : q = c0.regno
    · simp [hq0, h0.fresh]
    · simp [hq1, hq0]

/-- A binary operation, in a register that is allocated after its operands' are
freed. -/
theorem ArthSpec.arth {code : Alu} {a0 a1 : Arth} {s1 s2 : RegAlloc} {c0 c1 : ArthCode} {n : Reg}
    (h0 : ArthSpec offLl a0 s c0 s1) (h1 : ArthSpec offLl a1 s1 c1 s2)
    (halloc : allocReg (freeReg (freeReg s2 c0.regno) c1.regno) = some (n, s')) :
    ArthSpec offLl (.arth code a0 a1) s
      ⟨(c0.s.sappend c1.s).sappend (newStmts
        [xferToX c1.regno, xferToA c0.regno, ⟨bpfAlu ||| bpfX ||| code.code, 0⟩, stReg n]
        (plain_arth code c0.regno c1.regno n)), n⟩ s' := by
  obtain ⟨hfree, hused⟩ := allocReg_some halloc
  have hback := freeReg_back h0 h1
  rw [hback] at hfree
  refine ⟨⟨h0.sized, h1.sized⟩, ?_, hfree, fun q => by rw [hused, hback], fun env r => ?_⟩
  · rw [Arth.pieces, ← h0.pieces, ← h1.pieces]
    rfl
  have hsub : ∀ q, s.regused q → s1.regused q := fun q hq => by rw [h0.used, hq]; rfl
  show Computes env s (c0.s.stmts ++ c1.s.stmts ++ _) n r _
  rw [List.append_assoc]
  refine Computes.bind (fun _ hq => hq) (h0.runs env r) fun v r1 hv _ => ?_
  refine Computes.bind hsub (h1.runs env r1) fun w r2 hw hkeep => ?_
  -- the second operand has kept the first
  have hv2 : r2.mem c0.regno = v := by
    rw [hkeep c0.regno (by rw [h0.used]; simp), hv]
  refine computes_stReg [xferToX c1.regno, xferToA c0.regno, ⟨bpfAlu ||| bpfX ||| code.code, 0⟩]
    hfree ?_
  refine leavesA_of_run ((r2.setX w).setA v) ?_ rfl
  rw [run_operands hv2 hw]
  simp only [runStmts,
    perform_of_decode (t := ⟨bpfAlu ||| bpfX ||| code.code, 0⟩) (decode_alu_x code),
    Move.perform, Regs.setA, Regs.setX, Src.value, Stepped.bind_assoc, Stepped.bind_next]

end Compute

/-- The code of an expression computes it in a register that was free, and keeps the
registers in use. -/
theorem gen_spec {offLl : UInt32} {a : Arth} {s s' : RegAlloc} {c : ArthCode}
    (h : a.gen offLl s = some (c, s')) : ArthSpec offLl a s c s' := by
  induction a generalizing s c s' with
  | loadi val =>
      simp only [Arth.gen, Option.bind_eq_bind, Option.bind_eq_some_iff] at h
      obtain ⟨⟨n, s1⟩, halloc, h⟩ := h
      cases h
      -- a constant
      exact ArthSpec.leaf (v := fun _ => val) halloc decode_ldImm rfl (fun _ _ => rfl)
        (fun _ => rfl) trivial rfl
  | loadlen =>
      simp only [Arth.gen, Option.bind_eq_bind, Option.bind_eq_some_iff] at h
      obtain ⟨⟨n, s1⟩, halloc, h⟩ := h
      cases h
      -- the packet's length
      exact ArthSpec.leaf (v := fun env => env.wirelen) halloc decode_ldLen rfl (fun _ _ => rfl)
        (fun _ => rfl) trivial rfl
  | load inst size ih =>
      simp only [Arth.gen, Option.bind_eq_bind, Option.bind_eq_some_iff] at h
      obtain ⟨⟨ci, s1⟩, hinst, ⟨n, s2⟩, halloc, sz, hsize, h⟩ := h
      cases h
      exact (ih hinst).load halloc hsize
  | neg a ih =>
      simp only [Arth.gen, Option.bind_eq_bind, Option.bind_eq_some_iff] at h
      obtain ⟨⟨ca, s1⟩, ha, h⟩ := h
      cases h
      exact (ih ha).neg
  | arth code a0 a1 ih0 ih1 =>
      simp only [Arth.gen, Option.bind_eq_bind, Option.bind_eq_some_iff] at h
      obtain ⟨⟨c0, s1⟩, h0, ⟨c1, s2⟩, h1, ⟨n, s3⟩, halloc, h⟩ := h
      cases h
      exact (ih0 h0).arth (ih1 h1) halloc

/-! ## When registers suffice -/

/-- Every expression needs a register. -/
theorem Arth.need_pos (a : Arth) : 0 < a.need := by
  induction a with
  | loadi val => exact Nat.zero_lt_one
  | loadlen => exact Nat.zero_lt_one
  | load inst size ih => exact lt_max_of_lt_left ih
  | neg a ih => exact ih
  | arth code a0 a1 ih0 ih1 => exact lt_max_of_lt_left ih0

/-- An expression keeps one register in use. -/
theorem ArthSpec.card {offLl : UInt32} {a : Arth} {s s' : RegAlloc} {c : ArthCode}
    (h : ArthSpec offLl a s c s') : s'.used.card = s.used.card + 1 := by
  have hinsert : s'.used = insert c.regno s.used := by
    ext q
    rw [mem_used, h.used, Finset.mem_insert, mem_used]
    simp [or_comm]
  rw [hinsert, Finset.card_insert_of_notMem]
  rw [mem_used, h.fresh]
  exact Bool.false_ne_true

/-- The compiler runs out of registers exactly if the expression needs more than are
free. -/
theorem gen_isSome_iff (offLl : UInt32) {a : Arth} (hsized : a.Sized) (s : RegAlloc) :
    (a.gen offLl s).isSome ↔ s.used.card + a.need ≤ bpfMemwords := by
  induction a generalizing s with
  | loadi val =>
      -- a leaf needs one register
      have hgen : ((Arth.loadi val).gen offLl s).isSome = (allocReg s).isSome := by
        cases h : allocReg s <;> simp [Arth.gen, h]
      rw [hgen, allocReg_isSome_iff]
      rfl
  | loadlen =>
      have hgen : (Arth.loadlen.gen offLl s).isSome = (allocReg s).isSome := by
        cases h : allocReg s <;> simp [Arth.gen, h]
      rw [hgen, allocReg_isSome_iff]
      rfl
  | load inst size ih =>
      obtain ⟨sz, hsz⟩ := Option.isSome_iff_exists.mp hsized.2
      have hinst := ih hsized.1 s
      simp only [Arth.need]
      cases h : inst.gen offLl s with
      | none =>
          have hgen : ((Arth.load inst size).gen offLl s).isSome = false := by simp [Arth.gen, h]
          rw [h, Option.isSome_none] at hinst
          rw [hgen]
          -- there is no register for the operand
          exact iff_of_false Bool.false_ne_true fun hle => Bool.false_ne_true (hinst.mpr (by omega))
      | some p =>
          obtain ⟨c, s1⟩ := p
          have hgen : ((Arth.load inst size).gen offLl s).isSome = (allocReg s1).isSome := by
            cases h1 : allocReg s1 <;> simp [Arth.gen, h, h1, hsz]
          -- the operand's register is in use when the load's is allocated
          have hle := hinst.mp (by rw [h]; rfl)
          rw [hgen, allocReg_isSome_iff, (gen_spec h).card]
          omega
  | neg a ih =>
      have hgen : ((Arth.neg a).gen offLl s).isSome = (a.gen offLl s).isSome := by
        cases h : a.gen offLl s <;> simp [Arth.gen, h]
      rw [hgen]
      exact ih hsized s
  | arth code a0 a1 ih0 ih1 =>
      have h0 := ih0 hsized.1 s
      simp only [Arth.need]
      cases hg0 : a0.gen offLl s with
      | none =>
          have hgen : ((Arth.arth code a0 a1).gen offLl s).isSome = false := by simp [Arth.gen, hg0]
          rw [hg0, Option.isSome_none] at h0
          rw [hgen]
          -- there is no register for the first operand
          exact iff_of_false Bool.false_ne_true fun hle => Bool.false_ne_true (h0.mpr (by omega))
      | some p =>
          obtain ⟨c0, s1⟩ := p
          -- the second operand is computed beside the register of the first
          have hle0 := h0.mp (by rw [hg0]; rfl)
          have h1 := ih1 hsized.2 s1
          rw [(gen_spec hg0).card] at h1
          cases hg1 : a1.gen offLl s1 with
          | none =>
              have hgen : ((Arth.arth code a0 a1).gen offLl s).isSome = false := by
                simp [Arth.gen, hg0, hg1]
              rw [hg1, Option.isSome_none] at h1
              rw [hgen]
              exact iff_of_false Bool.false_ne_true
                fun hle => Bool.false_ne_true (h1.mpr (by omega))
          | some p =>
              obtain ⟨c1, s2⟩ := p
              have hle1 := h1.mp (by rw [hg1]; rfl)
              have hgen : ((Arth.arth code a0 a1).gen offLl s).isSome =
                  (allocReg (freeReg (freeReg s2 c0.regno) c1.regno)).isSome := by
                cases h2 : allocReg (freeReg (freeReg s2 c0.regno) c1.regno) <;>
                  simp [Arth.gen, hg0, hg1, h2]
              -- both operands' registers are free again, so one more is found
              have hback : (freeReg (freeReg s2 c0.regno) c1.regno).used = s.used := by
                ext q
                rw [mem_used, mem_used, freeReg_back (gen_spec hg0) (gen_spec hg1)]
              have hpos := a0.need_pos
              rw [hgen, allocReg_isSome_iff, hback]
              omega

end MobiPerf.Capture
