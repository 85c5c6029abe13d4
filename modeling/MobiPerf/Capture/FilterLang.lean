import MobiPerf.Capture.FilterArith
import MobiPerf.Capture.FilterCompile

/-!
# Capture.FilterLang — filters over fields and relations

The primitives of the filter language behind link headers of fixed length: the field
tests that the protocol primitives are made of (`gen_ncmp`), tests of the packet
length, and relations between arithmetic expressions. `Filter.meaning` says what a
filter decides of a packet; where a field or an operand is past the end of the
packet it ends the whole filter, also under `not`.

`bpfFilter_compiled` is the statement about the whole path from a filter to the
verdict on a packet.
-/

namespace MobiPerf.Capture

open Lib SocketProc

/-! ## Fields -/

/-- `enum e_offrel`. -/
inductive OffRel where
  | packet
  | link
  | macpl
  | net
  | netNosnap
  | tranIpv4
  | tranIpv6
deriving DecidableEq, Repr

/-- `off_ll`, `off_macpl`, `off_nl` and `off_nl_nosnap` of a link type. -/
structure LinkType where
  offLl : UInt32
  offMacpl : UInt32
  offNl : UInt32
  offNlNosnap : UInt32

namespace LinkType

variable (lt : LinkType)

/-- `gen_load_llrel` without a variable-length prefix. -/
def genLoadLlrel (offset : UInt32) (size : Size) : List FilterStmt :=
  [⟨bpfLd ||| bpfAbs ||| size.code, offset + lt.offLl⟩]

/-- `gen_load_macplrel` with a constant offset of the payload. -/
def genLoadMacplrel (offset : UInt32) (size : Size) : List FilterStmt :=
  [⟨bpfLd ||| bpfAbs ||| size.code, lt.offMacpl + offset⟩]

/-- `gen_loadx_iphdrlen`. -/
def genLoadxIphdrlen : List FilterStmt := [⟨bpfLdx ||| bpfMsh ||| bpfB, lt.offMacpl + lt.offNl⟩]

def genLoadA (offset : UInt32) (size : Size) : OffRel → List FilterStmt
  | .packet => [⟨bpfLd ||| bpfAbs ||| size.code, offset⟩]
  | .link => lt.genLoadLlrel offset size
  | .macpl => lt.genLoadMacplrel offset size
  | .net => lt.genLoadMacplrel (lt.offNl + offset) size
  | .netNosnap => lt.genLoadMacplrel (lt.offNlNosnap + offset) size
  | .tranIpv4 => lt.genLoadxIphdrlen ++
      [⟨bpfLd ||| bpfInd ||| size.code, lt.offMacpl + lt.offNl + offset⟩]
  | .tranIpv6 => lt.genLoadMacplrel (lt.offNl + 40 + offset) size

/-- The field of a packet. The header length of IPv4 is in words. -/
def field (env : Env) (offset : UInt32) (size : Size) : OffRel → Outcome UInt32
  | .packet => env.load size offset
  | .link => env.load size (offset + lt.offLl)
  | .macpl => env.load size (lt.offMacpl + offset)
  | .net => env.load size (lt.offMacpl + (lt.offNl + offset))
  | .netNosnap => env.load size (lt.offMacpl + (lt.offNlNosnap + offset))
  | .tranIpv4 => (env.load .b (lt.offMacpl + lt.offNl)).bind fun v =>
      env.load size (((v &&& 0xf) <<< 2) + (lt.offMacpl + lt.offNl + offset))
  | .tranIpv6 => env.load size (lt.offMacpl + (lt.offNl + 40 + offset))

end LinkType

theorem decode_ldAbs (size : Size) :
    decodeOp (bpfLd ||| bpfAbs ||| size.code) = some (.move (.ldAbs size)) := by
  cases size <;> decide

theorem decode_ldxMsh : decodeOp (bpfLdx ||| bpfMsh ||| bpfB) = some (.move .ldxMsh) := by decide

theorem decode_and_k : decodeOp (bpfAlu ||| bpfAnd ||| bpfK) = some (.move (.alu .and .k)) := by
  decide

/-- A single instruction that uses no memory is plain. -/
theorem plain_single {t : FilterStmt} {m : Move} (h : decodeOp t.code = some (.move m))
    (hmem : (Op.move m).usesMem = false) : ∀ u ∈ [t], u.Plain := by
  intro u hu
  rw [List.mem_singleton.mp hu]
  exact plain_of_decode h hmem

/-- So are the statements that load a field. -/
theorem LinkType.plain_genLoadA (lt : LinkType) (offset : UInt32) (size : Size) (offrel : OffRel) :
    ∀ t ∈ lt.genLoadA offset size offrel, t.Plain := by
  cases offrel with
  | tranIpv4 =>
      exact plain_append (plain_single decode_ldxMsh rfl) (plain_single (decode_ldInd size) rfl)
  | packet | link | macpl | net | netNosnap | tranIpv6 => exact plain_single (decode_ldAbs size) rfl

/-! ## Tests -/

def Cond.code : Cond → UInt16
  | .gt => bpfJgt
  | .ge => bpfJge
  | .eq => bpfJeq
  | .set => bpfJset

theorem decode_jmp_k (c : Cond) : decodeOp (c.code ||| bpfJmp ||| bpfK) = some (.jmp c .k) := by
  cases c <;> decide

theorem decode_jmp_x (c : Cond) : decodeOp (bpfJmp ||| c.code ||| bpfX) = some (.jmp c .x) := by
  cases c <;> decide

/-- The statement that `gen_ncmp` adds for a mask. -/
def maskStmts (mask : UInt32) : List FilterStmt :=
  if mask = 0xffffffff then [] else [⟨bpfAlu ||| bpfAnd ||| bpfK, mask⟩]

theorem plain_maskStmts (mask : UInt32) : ∀ t ∈ maskStmts mask, t.Plain := by
  unfold maskStmts
  split
  · exact plain_nil
  · exact plain_single decode_and_k rfl

/-- A block for `JMP(c)` and a constant. -/
def jmpTest (s0 : Slist) (c : Cond) (k : UInt32) : Test :=
  ⟨s0, ⟨c.code ||| bpfJmp ||| bpfK, k⟩, c, .k, decode_jmp_k c⟩

/-- `gen_not(b)` on a condition. -/
def notIf (b : Bool) (e : Expr) : Expr := if b then .not e else e

def genNcmp (lt : LinkType) (offrel : OffRel) (offset : UInt32) (size : Size) (mask : UInt32)
    (jtype : Cond) (reverse : Bool) (v : UInt32) : Expr :=
  notIf (reverse && (jtype = .gt || jtype = .ge))
    (.test (jmpTest
      ((newStmts (lt.genLoadA offset size offrel) (lt.plain_genLoadA offset size offrel)).sappend
        (newStmts (maskStmts mask) (plain_maskStmts mask))) jtype v))

def genLen (jmp : Cond) (n : UInt32) : Expr :=
  .test (jmpTest (newStmts [⟨bpfLd ||| bpfLen, 0⟩] (plain_single decode_ldLen rfl)) jmp n)

def genGreater (n : UInt32) : Expr := genLen .ge n

def genLess (n : UInt32) : Expr := .not (genLen .gt n)

/-- `relop` and `irelop`, of which the second ones are reversed. -/
inductive RelOp where
  | gt
  | ge
  | eq
deriving DecidableEq, Repr

def RelOp.cond : RelOp → Cond
  | .gt => .gt
  | .ge => .ge
  | .eq => .eq

def RelOp.holds (v w : UInt32) : RelOp → Bool
  | .gt => v > w
  | .ge => v ≥ w
  | .eq => v = w

/-- The statements that load the operands are plain. -/
theorem plain_operands (n0 n1 : Reg) : ∀ t ∈ [xferToX n1, xferToA n0], t.Plain := by
  intro t ht
  rcases List.mem_pair.mp ht with rfl | rfl
  · exact plain_xferToX n1
  · exact plain_xferToA n0

/-- The block of `gen_relation`: for `BPF_JEQ` the difference is compared with 0. -/
def relTest (code : RelOp) (c0 c1 : ArthCode) : Test :=
  let operands := newStmts [xferToX c1.regno, xferToA c0.regno] (plain_operands c0.regno c1.regno)
  let s := (c0.s.sappend c1.s).sappend operands
  if code = .eq then
    let sub := newStmts [⟨bpfAlu ||| bpfX ||| Alu.sub.code, 0⟩]
      (plain_single (decode_alu_x .sub) rfl)
    jmpTest (s.sappend sub) .eq 0
  else ⟨s, ⟨bpfJmp ||| code.cond.code ||| bpfX, 0⟩, code.cond, .x, decode_jmp_x _⟩

def genRelation (offLl : UInt32) (code : RelOp) (a0 a1 : Arth) (reversed : Bool) (s : RegAlloc) :
    Option (Expr × RegAlloc) := do
  let (c0, s) ← a0.gen offLl s
  let (c1, s) ← a1.gen offLl s
  let b := notIf reversed (.test (relTest code c0 c1))
  return (b, freeReg (freeReg s c0.regno) c1.regno)

/-! ## Filters -/

inductive Filter where
  | ncmp (offrel : OffRel) (offset : UInt32) (size : Size) (mask : UInt32) (jtype : Cond)
      (reverse : Bool) (v : UInt32)
  | greater (n : UInt32)
  | less (n : UInt32)
  | relation (code : RelOp) (a0 a1 : Arth) (reversed : Bool)
  | and (a b : Filter)
  | or (a b : Filter)
  | not (a : Filter)

/-- The actions of the parser, from left to right. -/
def Filter.gen (lt : LinkType) : Filter → RegAlloc → Option (Expr × RegAlloc)
  | ncmp offrel offset size mask jtype reverse v, s =>
    some (genNcmp lt offrel offset size mask jtype reverse v, s)
  | greater n, s => some (genGreater n, s)
  | less n, s => some (genLess n, s)
  | relation code a0 a1 reversed, s => genRelation lt.offLl code a0 a1 reversed s
  | and a b, s => do
    let (a, s) ← a.gen lt s
    let (b, s) ← b.gen lt s
    return (.and a b, s)
  | or a b, s => do
    let (a, s) ← a.gen lt s
    let (b, s) ← b.gen lt s
    return (.or a b, s)
  | not a, s => do
    let (a, s) ← a.gen lt s
    return (.not a, s)

/-- What a filter decides of a packet. -/
def Filter.meaning (env : Env) (lt : LinkType) : Filter → Outcome Bool
  | ncmp offrel offset size mask jtype reverse v =>
    (lt.field env offset size offrel).bind fun a =>
      .next ((jtype.holds (a &&& mask) v) != (reverse && (jtype = .gt || jtype = .ge)))
  | greater n => .next (env.wirelen ≥ n)
  | less n => .next !(env.wirelen > n)
  | relation code a0 a1 reversed => (a0.eval env lt.offLl).bind fun v =>
      (a1.eval env lt.offLl).bind fun w => .next (code.holds v w != reversed)
  | and a b => (a.meaning env lt).bind fun x => if x then b.meaning env lt else .next false
  | or a b => (a.meaning env lt).bind fun x => if x then .next true else b.meaning env lt
  | not a => (a.meaning env lt).bind fun x => .next !x

/-- The registers the relations of a filter need: one relation is compiled at a time. -/
def Filter.need : Filter → ℕ
  | relation _ a0 a1 _ => max a0.need (a1.need + 1)
  | and a b => max a.need b.need
  | or a b => max a.need b.need
  | not a => a.need
  | _ => 0

def Filter.Sized : Filter → Prop
  | relation _ a0 a1 _ => a0.Sized ∧ a1.Sized
  | and a b => a.Sized ∧ b.Sized
  | or a b => a.Sized ∧ b.Sized
  | not a => a.Sized
  | _ => True

/-- The statements that a load takes. -/
def OffRel.loads : OffRel → ℕ
  | tranIpv4 => 2
  | _ => 1

/-- What a filter is built from, in the order of the requests. -/
def Filter.pieces : Filter → List Piece
  | ncmp offrel _ _ mask _ _ _ =>
    List.replicate (offrel.loads + if mask = 0xffffffff then 0 else 1) .slist ++ [.block]
  | greater _ => [.slist, .block]
  | less _ => [.slist, .block]
  | relation code a0 a1 _ =>
    a0.pieces ++ a1.pieces ++ List.replicate (if code = .eq then 3 else 2) .slist ++ [.block]
  | and a b => a.pieces ++ b.pieces
  | or a b => a.pieces ++ b.pieces
  | not a => a.pieces

/-- The return value of the filter. -/
def Outcome.verdict (snaplen : UInt32) : Outcome Bool → Result
  | .next true => .ret snaplen
  | .next false => .ret 0
  | .halt x => x

/-! ## The meaning of the tests -/

section Tests

variable {env : Env} {r : Regs} {lt : LinkType}

/-- A test takes the side its condition holds for. -/
theorem side_test {t : Test} {cond : Cond} {src : Src}
    (hop : decodeOp t.s.code = some (.jmp cond src)) :
    ((Expr.test t).eval env r).side =
      (runStmts env t.stmts r).bind fun r => .next (cond.holds r.A (src.value t.s.k r)) := by
  rw [Expr.eval, Leaving.side_ofBlock, execCode, Stepped.bind_assoc]
  congr 1
  funext r
  show (t.s.branch r).bind _ = _
  simp only [FilterStmt.branch, hop, Stepped.bind_next]

/-- So does a test against a constant. -/
theorem side_jmpTest (s0 : Slist) (c : Cond) (k : UInt32) :
    ((Expr.test (jmpTest s0 c k)).eval env r).side =
      (runStmts env s0.stmts r).bind fun r => .next (c.holds r.A k) :=
  side_test (t := jmpTest s0 c k) (decode_jmp_k c)

/-- A negation takes the other side. -/
theorem side_notIf (b : Bool) (e : Expr) :
    ((notIf b e).eval env r).side = (e.eval env r).side.bind fun x => .next (x != b) := by
  cases b with
  | false =>
      show (e.eval env r).side = _
      cases (e.eval env r).side <;> simp
  | true =>
      show (Leaving.swap (e.eval env r)).side = _
      rw [Leaving.side_swap]
      simp

/-- The load of a field leaves it in `A`. -/
theorem run_genLoadA (offset : UInt32) (size : Size) (offrel : OffRel) (F : Regs → Outcome Bool)
    {g : UInt32 → Outcome Bool} (hF : ∀ (r : Regs) v, F (r.setA v) = g v) :
    (runStmts env (lt.genLoadA offset size offrel) r).bind F =
      (lt.field env offset size offrel).bind g := by
  cases offrel with
  | tranIpv4 =>
      simp only [LinkType.genLoadA, LinkType.genLoadxIphdrlen, LinkType.field, List.cons_append,
        List.nil_append, runStmts,
        perform_of_decode (t := ⟨bpfLdx ||| bpfMsh ||| bpfB, lt.offMacpl + lt.offNl⟩) decode_ldxMsh,
        perform_of_decode
          (t := ⟨bpfLd ||| bpfInd ||| size.code, lt.offMacpl + lt.offNl + offset⟩)
          (decode_ldInd size),
        Move.perform, Stepped.bind_assoc, Stepped.bind_next, hF, Regs.setX]
  | packet | link | macpl | net | netNosnap | tranIpv6 =>
      simp only [LinkType.genLoadA, LinkType.genLoadLlrel, LinkType.genLoadMacplrel,
        LinkType.field, runStmts, FilterStmt.perform, decode_ldAbs, Move.perform,
          Stepped.bind_assoc,
        Stepped.bind_next, hF]

/-- The mask is applied to A. -/
theorem run_maskStmts (mask : UInt32) (F : Regs → Outcome Bool) {g : UInt32 → Outcome Bool}
    (hF : ∀ (r : Regs) v, F (r.setA v) = g v) (v : UInt32) :
    (runStmts env (maskStmts mask) (r.setA v)).bind F = g (v &&& mask) := by
  unfold maskStmts
  split
  · rename_i hmask
    rw [hmask, show v &&& 0xffffffff = v from UInt32.and_neg_one]
    exact hF r v
  · simp only [runStmts, FilterStmt.perform, decode_and_k, Move.perform, Alu.apply, Src.value,
      Stepped.bind_next]
    exact hF (r.setA v) (v &&& mask)

/-- `gen_ncmp` compares the field as the filter says. -/
theorem side_genNcmp (offrel : OffRel) (offset : UInt32) (size : Size) (mask : UInt32)
    (jtype : Cond) (reverse : Bool) (v : UInt32) :
    ((genNcmp lt offrel offset size mask jtype reverse v).eval env r).side =
      (Filter.ncmp offrel offset size mask jtype reverse v).meaning env lt := by
  rw [genNcmp, side_notIf, side_jmpTest]
  show ((runStmts env (lt.genLoadA offset size offrel ++ maskStmts mask) r).bind _).bind _ = _
  rw [runStmts_append, Stepped.bind_assoc, Stepped.bind_assoc]
  refine run_genLoadA offset size offrel _ fun r a => ?_
  exact run_maskStmts mask _ (g := fun x => .next ((jtype.holds x v) != _)) (fun r x => rfl) a

/-- The length is compared with the wire length. -/
theorem side_genLen (jmp : Cond) (n : UInt32) :
    ((genLen jmp n).eval env r).side = .next (jmp.holds env.wirelen n) := by
  rw [genLen, side_jmpTest]
  show (runStmts env [⟨bpfLd ||| bpfLen, 0⟩] r).bind _ = _
  simp only [runStmts, FilterStmt.perform, decode_ldLen, Move.perform, Stepped.bind_next]
  rfl

end Tests

/-! ## Relations -/

section Relations

variable {env : Env} {r : Regs} {offLl : UInt32} {s s1 s2 : RegAlloc} {c0 c1 : ArthCode}

/-- What follows the code of an expression starts with the value in its register. -/
theorem Computes.run {ts rest : List FilterStmt} {n : Reg} {o : Outcome UInt32}
    {F : Regs → Outcome Bool} {f : UInt32 → Outcome Bool} (h : Computes env s ts n r o)
    (hrest : ∀ v r1, r1.mem n = v → (∀ q, s.regused q → r1.mem q = r.mem q) →
      (runStmts env rest r1).bind F = f v) :
    (runStmts env (ts ++ rest) r).bind F = o.bind f := by
  rw [runStmts_append]
  cases o with
  | halt x =>
      rw [show runStmts env ts r = .halt x from h]
      rfl
  | next v =>
      obtain ⟨r1, hrun, hval, hkeep⟩ := h
      rw [hrun]
      exact hrest v r1 hval hkeep

/-- The second operand keeps the first one, and both are moved to `X` and `A`. -/
theorem run_relation {a0 a1 : Arth} (h0 : ArthSpec offLl a0 s c0 s1)
    (h1 : ArthSpec offLl a1 s1 c1 s2)
    (ts : List FilterStmt) {F : Regs → Outcome Bool} {f : UInt32 → UInt32 → Outcome Bool}
    (hF : ∀ (r : Regs) v w, (runStmts env ts ((r.setX w).setA v)).bind F = f v w) :
    (runStmts env (c0.s.stmts ++ c1.s.stmts ++ ([xferToX c1.regno, xferToA c0.regno] ++ ts)) r).bind
        F = (a0.eval env offLl).bind fun v => (a1.eval env offLl).bind fun w => f v w := by
  rw [List.append_assoc]
  refine (h0.runs env r).run fun v r1 hv _ => ?_
  refine (h1.runs env r1).run fun w r2 hw hkeep => ?_
  have hv2 : r2.mem c0.regno = v := by
    rw [hkeep c0.regno (by rw [h0.used]; simp), hv]
  show (runStmts env (xferToX c1.regno :: xferToA c0.regno :: ts) r2).bind F = _
  rw [run_operands hv2 hw]
  exact hF r2 v w

/-- A difference is 0 where the values are equal. -/
theorem side_relTest {a0 a1 : Arth} (h0 : ArthSpec offLl a0 s c0 s1)
    (h1 : ArthSpec offLl a1 s1 c1 s2) (code : RelOp) :
    ((Expr.test (relTest code c0 c1)).eval env r).side =
      (a0.eval env offLl).bind fun v => (a1.eval env offLl).bind fun w =>
        .next (code.holds v w) := by
  unfold relTest
  split
  · rename_i hcode
    subst hcode
    rw [side_jmpTest]
    show (runStmts env (c0.s.stmts ++ c1.s.stmts ++ [xferToX c1.regno, xferToA c0.regno] ++
      [⟨bpfAlu ||| bpfX ||| Alu.sub.code, 0⟩]) r).bind _ = _
    rw [List.append_assoc (c0.s.stmts ++ c1.s.stmts)]
    refine run_relation h0 h1 [⟨bpfAlu ||| bpfX ||| Alu.sub.code, 0⟩] fun r v w => ?_
    simp only [runStmts, perform_of_decode (t := ⟨bpfAlu ||| bpfX ||| Alu.sub.code, 0⟩)
      (decode_alu_x .sub), Move.perform, Alu.apply, Src.value, Stepped.bind_next]
    simp [Cond.holds, RelOp.holds, Regs.setA, Regs.setX, sub_eq_zero]
  · rename_i hcode
    rw [side_test (decode_jmp_x code.cond)]
    refine run_relation h0 h1 [] fun r v w => ?_
    cases code with
    | gt | ge => rfl
    | eq => exact absurd rfl hcode

end Relations

/-! ## The meaning of a filter -/

/-- A relation is generated from the code of its operands. -/
theorem genRelation_eq_some {offLl : UInt32} {code : RelOp} {a0 a1 : Arth} {reversed : Bool}
    {s s' : RegAlloc} {e : Expr} (h : genRelation offLl code a0 a1 reversed s = some (e, s')) :
    ∃ c0 s1 c1 s2, ArthSpec offLl a0 s c0 s1 ∧ ArthSpec offLl a1 s1 c1 s2 ∧
      e = notIf reversed (.test (relTest code c0 c1)) ∧
      s' = freeReg (freeReg s2 c0.regno) c1.regno := by
  simp only [genRelation, Option.bind_eq_bind, Option.bind_eq_some_iff] at h
  obtain ⟨⟨c0, s1⟩, h0, ⟨c1, s2⟩, h1, h⟩ := h
  cases h
  exact ⟨c0, s1, c1, s2, gen_spec h0, gen_spec h1, rfl, rfl⟩

/-- A negation allocates nothing. -/
theorem pieces_notIf (b : Bool) (e : Expr) : (notIf b e).pieces = e.pieces := by
  cases b <;> rfl

/-- What `gen_ncmp` allocates. -/
theorem pieces_genNcmp (lt : LinkType) (offrel : OffRel) (offset : UInt32) (size : Size)
    (mask : UInt32) (jtype : Cond) (reverse : Bool) (v : UInt32) :
    (genNcmp lt offrel offset size mask jtype reverse v).pieces =
      (Filter.ncmp offrel offset size mask jtype reverse v).pieces := by
  have hload : (lt.genLoadA offset size offrel).map (fun _ => Piece.slist) =
      List.replicate offrel.loads .slist := by
    cases offrel <;> rfl
  have hmask : (maskStmts mask).map (fun _ => Piece.slist) =
      List.replicate (if mask = 0xffffffff then 0 else 1) .slist := by
    unfold maskStmts
    split <;> rfl
  rw [genNcmp, pieces_notIf, Filter.pieces, List.replicate_add, ← hload, ← hmask]
  rfl

/-- What a relation allocates. -/
theorem pieces_relTest {offLl : UInt32} {a0 a1 : Arth} {s s1 s2 : RegAlloc} {c0 c1 : ArthCode}
    (h0 : ArthSpec offLl a0 s c0 s1) (h1 : ArthSpec offLl a1 s1 c1 s2) (code : RelOp)
    (reversed : Bool) : (Expr.test (relTest code c0 c1)).pieces =
      (Filter.relation code a0 a1 reversed).pieces := by
  rw [Filter.pieces, ← h0.pieces, ← h1.pieces]
  unfold relTest
  split
  · show c0.s.pieces ++ c1.s.pieces ++ [.slist, .slist] ++ [.slist] ++ [.block] = _
    rw [List.append_assoc (c0.s.pieces ++ c1.s.pieces)]
    rfl
  · rfl

/-- What the actions of the parser leave behind for a filter: an expression with the
filter's meaning, from any registers, and no register in use. -/
structure FilterSpec (lt : LinkType) (f : Filter) (s : RegAlloc) (e : Expr) (s' : RegAlloc) :
    Prop where
  sized : f.Sized
  pieces : e.pieces = f.pieces
  used : s'.regused = s.regused
  side : ∀ env r, (e.eval env r).side = f.meaning env lt

/-- What is generated for a filter has its meaning and allocates its pieces. -/
theorem Filter.gen_spec {lt : LinkType} {f : Filter} {s s' : RegAlloc} {e : Expr}
    (h : f.gen lt s = some (e, s')) : FilterSpec lt f s e s' := by
  induction f generalizing s s' e with
  | ncmp offrel offset size mask jtype reverse v =>
      cases h
      exact ⟨trivial, pieces_genNcmp lt offrel offset size mask jtype reverse v, rfl,
        fun env r => side_genNcmp offrel offset size mask jtype reverse v⟩
  | greater n =>
      cases h
      exact ⟨trivial, rfl, rfl, fun env r => side_genLen .ge n⟩
  -- `less` is `greater` with the branches exchanged
  | less n =>
      cases h
      refine ⟨trivial, rfl, rfl, fun env r => ?_⟩
      show (Leaving.swap (Expr.eval env (genLen .gt n) r)).side = _
      rw [Leaving.side_swap, side_genLen]
      rfl
  -- the operands are computed in registers that are free again after the comparison
  | relation code a0 a1 reversed =>
      obtain ⟨c0, s1, c1, s2, h0, h1, rfl, rfl⟩ := genRelation_eq_some h
      refine ⟨⟨h0.sized, h1.sized⟩, ?_, funext (freeReg_back h0 h1), fun env r => ?_⟩
      · rw [pieces_notIf, pieces_relTest h0 h1 code reversed]
      · rw [side_notIf, side_relTest h0 h1, Stepped.bind_assoc, Filter.meaning]
        congr 1
        funext v
        rw [Stepped.bind_assoc]
        rfl
  -- the second operand's code is reached where the first's holds
  | and a b iha ihb =>
      simp only [Filter.gen, Option.bind_eq_bind, Option.bind_eq_some_iff] at h
      obtain ⟨⟨ea, s1⟩, hga, ⟨eb, s2⟩, hgb, h⟩ := h
      cases h
      have ha := iha hga
      have hb := ihb hgb
      refine ⟨⟨ha.sized, hb.sized⟩, ?_, hb.used.trans ha.used, fun env r => ?_⟩
      · rw [Expr.pieces, ha.pieces, hb.pieces, Filter.pieces]
      · rw [Expr.eval, Leaving.side_andThen (hb.side env), ha.side env, Filter.meaning]
        congr 1
        funext x
        cases x <;> rfl
  -- the second operand's code is reached where the first's fails
  | or a b iha ihb =>
      simp only [Filter.gen, Option.bind_eq_bind, Option.bind_eq_some_iff] at h
      obtain ⟨⟨ea, s1⟩, hga, ⟨eb, s2⟩, hgb, h⟩ := h
      cases h
      have ha := iha hga
      have hb := ihb hgb
      refine ⟨⟨ha.sized, hb.sized⟩, ?_, hb.used.trans ha.used, fun env r => ?_⟩
      · rw [Expr.pieces, ha.pieces, hb.pieces, Filter.pieces]
      · rw [Expr.eval, Leaving.side_andThen (hb.side env), ha.side env, Filter.meaning]
        congr 1
        funext x
        cases x <;> rfl
  | not a ih =>
      simp only [Filter.gen, Option.bind_eq_bind, Option.bind_eq_some_iff] at h
      obtain ⟨⟨ea, s1⟩, hga, h⟩ := h
      cases h
      have ha := ih hga
      refine ⟨ha.sized, ha.pieces, ha.used, fun env r => ?_⟩
      rw [Expr.eval, Leaving.side_swap, ha.side env, Filter.meaning]

/-! ## Registers -/

/-- A relation is generated exactly when its operands find registers. -/
theorem genRelation_isSome_iff {offLl : UInt32} {code : RelOp} {a0 a1 : Arth} {reversed : Bool}
    (h0 : a0.Sized) (h1 : a1.Sized) (s : RegAlloc) :
    (genRelation offLl code a0 a1 reversed s).isSome ↔
      s.used.card + max a0.need (a1.need + 1) ≤ bpfMemwords := by
  have hiff0 := gen_isSome_iff offLl h0 s
  cases hg0 : a0.gen offLl s with
  | none =>
      rw [hg0, Option.isSome_none] at hiff0
      have hgen : (genRelation offLl code a0 a1 reversed s).isSome = false := by
        simp [genRelation, hg0]
      rw [hgen]
      exact iff_of_false Bool.false_ne_true fun hle => Bool.false_ne_true (hiff0.mpr (by omega))
  | some p =>
      obtain ⟨c0, s1⟩ := p
      have hle0 := hiff0.mp (by rw [hg0]; rfl)
      have hgen : (genRelation offLl code a0 a1 reversed s).isSome = (a1.gen offLl s1).isSome := by
        cases hg1 : a1.gen offLl s1 <;> simp [genRelation, hg0, hg1]
      rw [hgen, gen_isSome_iff offLl h1, (Capture.gen_spec hg0).card]
      omega

/-- Two filters are compiled one after the other, from the same registers. -/
theorem Filter.both_isSome_iff {lt : LinkType} {a b : Filter} {s : RegAlloc}
    (iha : (a.gen lt s).isSome ↔ s.used.card + a.need ≤ bpfMemwords)
    (ihb : ∀ s, (b.gen lt s).isSome ↔ s.used.card + b.need ≤ bpfMemwords) :
    ((a.gen lt s).bind fun p => b.gen lt p.2).isSome ↔
      s.used.card + max a.need b.need ≤ bpfMemwords := by
  cases ha : a.gen lt s with
  | none =>
      rw [ha, Option.isSome_none] at iha
      exact iff_of_false Bool.false_ne_true fun hle => Bool.false_ne_true (iha.mpr (by omega))
  | some p =>
      obtain ⟨e, s1⟩ := p
      have hle := iha.mp (by rw [ha]; rfl)
      have hused : s1.used = s.used := by
        rw [RegAlloc.used, (Filter.gen_spec ha).used]
        rfl
      rw [Option.bind_some, ihb, hused]
      omega

/-- A filter whose loads have a size is translated exactly if its relations have
registers enough. -/
theorem Filter.gen_isSome_iff (lt : LinkType) {f : Filter} (hsized : f.Sized) (s : RegAlloc) :
    (f.gen lt s).isSome ↔ s.used.card + f.need ≤ bpfMemwords := by
  induction f generalizing s with
  | ncmp | greater | less => exact iff_of_true rfl s.card_used_le
  | relation code a0 a1 reversed => exact genRelation_isSome_iff hsized.1 hsized.2 s
  | and a b iha ihb =>
      rw [Filter.need, ← Filter.both_isSome_iff (iha hsized.1 s) (ihb hsized.2)]
      cases ha : a.gen lt s with
      | none => simp [Filter.gen, ha]
      | some p => cases hb : b.gen lt p.2 <;> simp [Filter.gen, ha, hb]
  | or a b iha ihb =>
      rw [Filter.need, ← Filter.both_isSome_iff (iha hsized.1 s) (ihb hsized.2)]
      cases ha : a.gen lt s with
      | none => simp [Filter.gen, ha]
      | some p => cases hb : b.gen lt p.2 <;> simp [Filter.gen, ha, hb]
  | not a ih =>
      have hgen : ((Filter.not a).gen lt s).isSome = (a.gen lt s).isSome := by
        cases h : a.gen lt s <;> simp [Filter.gen, h]
      rw [hgen]
      exact ih hsized s

/-- A filter is generated exactly when its loads have a size and its registers
suffice. -/
theorem Filter.gen_initRegs_iff (lt : LinkType) (f : Filter) :
    (f.gen lt initRegs).isSome ↔ f.Sized ∧ f.need ≤ bpfMemwords := by
  have hfree : initRegs.used.card = 0 := by decide
  constructor
  · intro h
    obtain ⟨⟨e, s'⟩, hgen⟩ := Option.isSome_iff_exists.mp h
    have hsized := (Filter.gen_spec hgen).sized
    rw [gen_isSome_iff lt hsized, hfree, Nat.zero_add] at h
    exact ⟨hsized, h⟩
  · rintro ⟨hsized, hneed⟩
    rwa [gen_isSome_iff lt hsized, hfree, Nat.zero_add]

/-! ## From a filter to a verdict -/

/-- `pcap_compile` of a filter of this language. -/
def compileFilter (build : Build) (lt : LinkType) (snaplen : UInt32) (f : Filter) :
    Option (List Insn) := do
  let (e, _) ← f.gen lt initRegs
  pcapCompile build snaplen (some e)

/-- All that `newchunk` is asked for, with the two blocks that return. -/
def Filter.requests (f : Filter) : List Piece := f.pieces ++ [.block, .block]

/-- What a filter needs: a snapshot length, sizes of loads that exist, registers for
each of its relations, and memory. -/
structure Filter.Compilable (build : Build) (snaplen : UInt32) (f : Filter) : Prop where
  snaplen_ne : snaplen ≠ 0
  sized : f.Sized
  need : f.need ≤ bpfMemwords
  fits : Fits build f.requests

/-- The verdict is that of the side the filter leaves by. -/
theorem verdict_eq (snaplen : UInt32) (x : Leaving Regs Result) :
    verdict snaplen x = Outcome.verdict snaplen x.side := by
  cases x with
  | done r => rfl
  | exit b r => cases b <;> rfl

section Compile

variable {build : Build} {lt : LinkType} {snaplen : UInt32} {f : Filter}

/-- What is compiled is a valid program, which runs to its end over every packet, and its
verdict is what the filter means. -/
theorem compileFilter_sound {prog : List Insn}
    (h : compileFilter build lt snaplen f = some prog) :
    bpfValidate prog ∧ Forward prog ∧ ∀ p wirelen mem,
      bpfFilter prog p wirelen mem prog.length =
        .halt ((f.meaning (userland p wirelen) lt).verdict snaplen) := by
  simp only [compileFilter, Option.bind_eq_bind, Option.bind_eq_some_iff] at h
  obtain ⟨⟨e, s'⟩, hgen, hcompile⟩ := h
  obtain ⟨hsnaplen, hfits⟩ := pcapCompile_isSome_iff.mp (Option.isSome_of_mem hcompile)
  obtain ⟨prog', hcompile', hvalid, hforward, hyields⟩ := pcapCompile_yields hsnaplen hfits
  cases hcompile'.symm.trans hcompile
  refine ⟨hvalid, hforward, fun p wirelen mem => ?_⟩
  obtain ⟨x, hx⟩ := bpfFilter_halts hvalid hforward p wirelen mem
  have hyield := hyields (userland p wirelen) mem
  rw [filterResult, verdict_eq, (Filter.gen_spec hgen).side] at hyield
  have hx' : (filterStep (userland p wirelen) prog).Yields (FilterState.start mem) x := ⟨_, hx⟩
  rw [hx, hx'.unique hyield]

/-- A filter is compiled exactly when it is compilable. -/
theorem compileFilter_isSome : (compileFilter build lt snaplen f).isSome ↔
    f.Compilable build snaplen := by
  have hgen_iff := Filter.gen_initRegs_iff lt f
  cases hgen : f.gen lt initRegs with
  | none =>
      rw [hgen, Option.isSome_none] at hgen_iff
      have hnone : (compileFilter build lt snaplen f).isSome = false := by
        simp [compileFilter, hgen]
      rw [hnone]
      exact iff_of_false Bool.false_ne_true fun h =>
        Bool.false_ne_true (hgen_iff.mpr ⟨h.sized, h.need⟩)
  | some p =>
      obtain ⟨e, s'⟩ := p
      obtain ⟨hsized, hneed⟩ := hgen_iff.mp (by rw [hgen]; rfl)
      have heq : compileFilter build lt snaplen f = pcapCompile build snaplen (some e) := by
        simp [compileFilter, hgen]
      rw [heq, pcapCompile_isSome_iff, filterPieces, (Filter.gen_spec hgen).pieces]
      exact ⟨fun h => ⟨h.1, hsized, hneed, h.2⟩, fun h => ⟨h.snaplen_ne, h.fits⟩⟩

end Compile

/-! ## Filters that return -/

/-- A load that ends the filter ends it with 0, or with what C leaves undefined. -/
theorem loadPacket_ret {q : Bytes} {size : Size} {k v : UInt32}
    (h : loadPacket q size k = .halt (.ret v)) : v = 0 := by
  unfold loadPacket at h
  split at h
  · cases h
    rfl
  · split at h <;> cases h

/-- An operation ends the program by a division by 0 only, and then rejects. -/
theorem Alu.apply_ret {op : Alu} {a w v : UInt32} {src : Src}
    (h : op.apply a w src = .halt (.ret v)) : v = 0 := by
  cases op with
  | add | sub | mul | and | or => cases h
  | div =>
      simp only [Alu.apply] at h
      split at h
      · cases src <;> cases h
        rfl
      · cases h
  | lsh | rsh =>
      simp only [Alu.apply] at h
      split at h <;> cases h

section Returns

variable {q : Bytes} {wirelen v : UInt32} {lt : LinkType}

/-- An expression only ends the program with 0. -/
theorem Arth.eval_ret {a : Arth} {offLl : UInt32}
    (h : a.eval (userland q wirelen) offLl = .halt (.ret v)) : v = 0 := by
  induction a generalizing v with
  | loadi | loadlen => cases h
  | load inst size ih =>
      rcases Stepped.bind_eq_halt.mp h with h | ⟨x, -, h⟩
      · exact ih h
      · split at h
        · exact loadPacket_ret h
        · cases h
          rfl
  | neg a ih =>
      rcases Stepped.bind_eq_halt.mp h with h | ⟨x, -, h⟩
      · exact ih h
      · cases h
  | arth code a0 a1 ih0 ih1 =>
      rcases Stepped.bind_eq_halt.mp h with h | ⟨x, -, h⟩
      · exact ih0 h
      · rcases Stepped.bind_eq_halt.mp h with h | ⟨y, -, h⟩
        · exact ih1 h
        · exact Alu.apply_ret h

/-- A field that is not in the packet ends the program with 0. -/
theorem LinkType.field_ret {offset : UInt32} {size : Size} {offrel : OffRel}
    (h : lt.field (userland q wirelen) offset size offrel = .halt (.ret v)) : v = 0 := by
  cases offrel with
  | tranIpv4 =>
      rcases Stepped.bind_eq_halt.mp h with h | ⟨x, -, h⟩
      · exact loadPacket_ret h
      · exact loadPacket_ret h
  | packet | link | macpl | net | netNosnap | tranIpv6 => exact loadPacket_ret h

/-- A filter is ended with 0, or with what C leaves undefined. -/
theorem Filter.meaning_ret {f : Filter}
    (h : f.meaning (userland q wirelen) lt = .halt (.ret v)) : v = 0 := by
  induction f generalizing v with
  | ncmp offrel offset size mask jtype reverse w =>
      rcases Stepped.bind_eq_halt.mp h with h | ⟨x, -, h⟩
      · exact LinkType.field_ret h
      · cases h
  | greater | less => cases h
  | relation code a0 a1 reversed =>
      rcases Stepped.bind_eq_halt.mp h with h | ⟨x, -, h⟩
      · exact Arth.eval_ret h
      · rcases Stepped.bind_eq_halt.mp h with h | ⟨y, -, h⟩
        · exact Arth.eval_ret h
        · cases h
  | and a b iha ihb | or a b iha ihb =>
      rcases Stepped.bind_eq_halt.mp h with h | ⟨x, -, h⟩
      · exact iha h
      · cases x with
        | true => first | exact ihb h | cases h
        | false => first | exact ihb h | cases h
  | not a ih =>
      rcases Stepped.bind_eq_halt.mp h with h | ⟨x, -, h⟩
      · exact ih h
      · cases h

end Returns

/-- No packet makes the filter shift by 32 or more, or load from an offset whose end is
past 2³². -/
def Filter.Faultless (lt : LinkType) (f : Filter) : Prop :=
  ∀ q wirelen x, f.meaning (userland q wirelen) lt ≠ .halt (.fault x)

/-- What such a filter is compiled to returns for every packet. -/
def Filter.program {build : Build} {lt : LinkType} {snaplen : UInt32} {f : Filter}
    {prog : List Insn} (hcompile : compileFilter build lt snaplen f = some prog)
    (hfaultless : f.Faultless lt) : BpfProgram where
  insns := prog
  valid := (compileFilter_sound hcompile).1
  passes := prog.length
  returns q wirelen mem := by
    rw [(compileFilter_sound hcompile).2.2 q wirelen mem]
    cases hmeaning : f.meaning (userland q wirelen) lt with
    | next b => cases b <;> exact ⟨_, rfl⟩
    | halt x =>
        cases x with
        | ret v => exact ⟨v, rfl⟩
        | fault x => exact absurd hmeaning (hfaultless q wirelen x)

/-! ## The compiler is correct -/

/-- Ethernet. -/
def en10mb : LinkType where
  offLl := 0
  offMacpl := 14
  offNl := 0
  offNlNosnap := 3

/-- A machine with 32-bit words. -/
def ilp32 : Build where
  sizeofLong := 4
  sizeof
    | .block => 208
    | .slist => 20
    | .arth => 12
  sizeofLong_pos := by decide
  sizeof_pos p := by cases p <;> decide

/-- `udp port 53` over IPv4, and `ip[2:2] > 40`. -/
def portFilter : Filter :=
  .and (.ncmp .link 12 .h 0xffffffff .eq false 0x800)
    (.and (.ncmp .tranIpv4 2 .h 0xffffffff .eq false 53)
      (.relation .gt (.load (.loadi 16) 2) (.loadi 40) false))

/-- The IPv4 header has at most 60 bytes, and no load is far behind it. -/
theorem portFilter_faultless : portFilter.Faultless en10mb := by
  -- the header's length is at most 60, so the port's offset does not wrap
  have hheader : ∀ v : UInt32,
      (((v &&& 0xf) <<< 2) + (14 + 0 + 2)).toNat + Size.h.bytes ≤ 2 ^ 32 - 1 := by
    intro v
    have hand : (v &&& 0xf).toNat ≤ 15 := by
      rw [UInt32.toNat_and]
      exact Nat.and_le_right
    have hshift : ((v &&& 0xf) <<< 2).toNat ≤ 60 := by
      rw [UInt32.toNat_shiftLeft, Nat.shiftLeft_eq]
      exact (Nat.mod_le _ _).trans (Nat.mul_le_mul_right 4 hand)
    rw [UInt32.toNat_add]
    simp only [Size.bytes]
    exact Nat.add_le_add_right ((Nat.mod_le _ _).trans (Nat.add_le_add_right hshift 16)) 2 |>.trans
      (by decide)
  intro q wirelen x h
  -- the type of the frame, at a fixed offset
  rcases Stepped.bind_eq_halt.mp h with h | ⟨type, -, h⟩
  · rcases Stepped.bind_eq_halt.mp h with h | ⟨v, -, h⟩
    · exact loadPacket_ne_fault (by decide) h
    · cases h
  cases type with
  | false => cases h
  | true =>
      -- the port, behind an IP header of the length its first byte gives
      rcases Stepped.bind_eq_halt.mp h with h | ⟨port, -, h⟩
      · rcases Stepped.bind_eq_halt.mp h with h | ⟨v, -, h⟩
        · rcases Stepped.bind_eq_halt.mp h with h | ⟨v, -, h⟩
          · exact loadPacket_ne_fault (by decide) h
          · exact loadPacket_ne_fault (hheader v) h
        · cases h
      cases port with
      | false => cases h
      | true =>
          rcases Stepped.bind_eq_halt.mp h with h | ⟨v, -, h⟩
          · exact absurd h (show loadPacket q .h 16 ≠ _ from loadPacket_ne_fault (by decide))
          · cases h

/-- Its loads have sizes, and it fits the chunks. -/
theorem portFilter_compilable : portFilter.Compilable ilp32 96 where
  snaplen_ne := by decide
  sized := ⟨trivial, trivial, ⟨trivial, rfl⟩, trivial⟩
  need := by decide
  fits := fits_of_sum_le (m := 208) (fun p => by cases p <;> decide) (by decide) (by decide)

end MobiPerf.Capture
