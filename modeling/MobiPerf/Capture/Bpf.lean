import Mathlib.Data.UInt
import Mathlib.Tactic.DeriveFintype
import MobiPerf.Lib.Machine
import MobiPerf.SocketProc.Basic

/-!
# Capture.Bpf — the filter machine of libpcap

`bpf_filter` runs a filter program over a packet and `bpf_validate` accepts
programs for it. The machine is parametrised by where its loads read (`Env`): the
packet in the buffer of the library here, and what the kernel does with the same
program elsewhere.

What C leaves undefined halts the run with a fault: a read outside the packet or
the scratch memory, a division by a constant zero, a shift by 32 or more, a jump
out of the program; and so does `abort()`. `size_t` has 32 bits, so the test
`k + sizeof(int32) > buflen` wraps.
-/

namespace MobiPerf.Capture

open Lib SocketProc

/-! ## Instructions -/

/-- `struct bpf_insn`. -/
structure Insn where
  code : UInt16
  jt : UInt8
  jf : UInt8
  k : UInt32
deriving DecidableEq, Repr

def bpfLd : UInt16 := 0x00
def bpfLdx : UInt16 := 0x01
def bpfSt : UInt16 := 0x02
def bpfStx : UInt16 := 0x03
def bpfAlu : UInt16 := 0x04
def bpfJmp : UInt16 := 0x05
def bpfRet : UInt16 := 0x06
def bpfMisc : UInt16 := 0x07

def bpfW : UInt16 := 0x00
def bpfH : UInt16 := 0x08
def bpfB : UInt16 := 0x10

def bpfImm : UInt16 := 0x00
def bpfAbs : UInt16 := 0x20
def bpfInd : UInt16 := 0x40
def bpfMem : UInt16 := 0x60
def bpfLen : UInt16 := 0x80
def bpfMsh : UInt16 := 0xa0

def bpfAdd : UInt16 := 0x00
def bpfSub : UInt16 := 0x10
def bpfMul : UInt16 := 0x20
def bpfDiv : UInt16 := 0x30
def bpfOr : UInt16 := 0x40
def bpfAnd : UInt16 := 0x50
def bpfLsh : UInt16 := 0x60
def bpfRsh : UInt16 := 0x70
def bpfNeg : UInt16 := 0x80

def bpfJa : UInt16 := 0x00
def bpfJeq : UInt16 := 0x10
def bpfJgt : UInt16 := 0x20
def bpfJge : UInt16 := 0x30
def bpfJset : UInt16 := 0x40

def bpfK : UInt16 := 0x00
def bpfX : UInt16 := 0x08
def bpfA : UInt16 := 0x10

def bpfTax : UInt16 := 0x00
def bpfTxa : UInt16 := 0x80

def bpfClass (code : UInt16) : UInt16 := code &&& 0x07
def bpfMode (code : UInt16) : UInt16 := code &&& 0xe0
def bpfOp (code : UInt16) : UInt16 := code &&& 0xf0
def bpfRval (code : UInt16) : UInt16 := code &&& 0x18

def bpfMemwords : ℕ := 16

/-- The width of a load. -/
inductive Size where
  | w
  | h
  | b
deriving DecidableEq, Repr

def Size.bytes : Size → ℕ
  | .w => 4
  | .h => 2
  | .b => 1

/-- The second operand: the constant of the instruction or the index register. -/
inductive Src where
  | k
  | x
deriving DecidableEq, Repr

inductive Alu where
  | add
  | sub
  | mul
  | div
  | and
  | or
  | lsh
  | rsh
deriving DecidableEq, Repr

inductive Cond where
  | gt
  | ge
  | eq
  | set
deriving DecidableEq, Repr

/-- The instructions behind which the next one runs. -/
inductive Move where
  | ldAbs (size : Size)
  | ldLen
  | ldxLen
  | ldInd (size : Size)
  | ldxMsh
  | ldImm
  | ldxImm
  | ldMem
  | ldxMem
  | st
  | stx
  | alu (op : Alu) (src : Src)
  | neg
  | tax
  | txa
deriving DecidableEq, Repr

inductive Op where
  | retK
  | retA
  | ja
  | jmp (cond : Cond) (src : Src)
  | move (m : Move)
deriving DecidableEq, Repr

/-- The cases of the `switch`, in its order. -/
def opcodes : List (UInt16 × Op) :=
  [(bpfRet ||| bpfK, .retK),
   (bpfRet ||| bpfA, .retA),
   (bpfLd ||| bpfW ||| bpfAbs, .move (.ldAbs .w)),
   (bpfLd ||| bpfH ||| bpfAbs, .move (.ldAbs .h)),
   (bpfLd ||| bpfB ||| bpfAbs, .move (.ldAbs .b)),
   (bpfLd ||| bpfW ||| bpfLen, .move .ldLen),
   (bpfLdx ||| bpfW ||| bpfLen, .move .ldxLen),
   (bpfLd ||| bpfW ||| bpfInd, .move (.ldInd .w)),
   (bpfLd ||| bpfH ||| bpfInd, .move (.ldInd .h)),
   (bpfLd ||| bpfB ||| bpfInd, .move (.ldInd .b)),
   (bpfLdx ||| bpfMsh ||| bpfB, .move .ldxMsh),
   (bpfLd ||| bpfImm, .move .ldImm),
   (bpfLdx ||| bpfImm, .move .ldxImm),
   (bpfLd ||| bpfMem, .move .ldMem),
   (bpfLdx ||| bpfMem, .move .ldxMem),
   (bpfSt, .move .st),
   (bpfStx, .move .stx),
   (bpfJmp ||| bpfJa, .ja),
   (bpfJmp ||| bpfJgt ||| bpfK, .jmp .gt .k),
   (bpfJmp ||| bpfJge ||| bpfK, .jmp .ge .k),
   (bpfJmp ||| bpfJeq ||| bpfK, .jmp .eq .k),
   (bpfJmp ||| bpfJset ||| bpfK, .jmp .set .k),
   (bpfJmp ||| bpfJgt ||| bpfX, .jmp .gt .x),
   (bpfJmp ||| bpfJge ||| bpfX, .jmp .ge .x),
   (bpfJmp ||| bpfJeq ||| bpfX, .jmp .eq .x),
   (bpfJmp ||| bpfJset ||| bpfX, .jmp .set .x),
   (bpfAlu ||| bpfAdd ||| bpfX, .move (.alu .add .x)),
   (bpfAlu ||| bpfSub ||| bpfX, .move (.alu .sub .x)),
   (bpfAlu ||| bpfMul ||| bpfX, .move (.alu .mul .x)),
   (bpfAlu ||| bpfDiv ||| bpfX, .move (.alu .div .x)),
   (bpfAlu ||| bpfAnd ||| bpfX, .move (.alu .and .x)),
   (bpfAlu ||| bpfOr ||| bpfX, .move (.alu .or .x)),
   (bpfAlu ||| bpfLsh ||| bpfX, .move (.alu .lsh .x)),
   (bpfAlu ||| bpfRsh ||| bpfX, .move (.alu .rsh .x)),
   (bpfAlu ||| bpfAdd ||| bpfK, .move (.alu .add .k)),
   (bpfAlu ||| bpfSub ||| bpfK, .move (.alu .sub .k)),
   (bpfAlu ||| bpfMul ||| bpfK, .move (.alu .mul .k)),
   (bpfAlu ||| bpfDiv ||| bpfK, .move (.alu .div .k)),
   (bpfAlu ||| bpfAnd ||| bpfK, .move (.alu .and .k)),
   (bpfAlu ||| bpfOr ||| bpfK, .move (.alu .or .k)),
   (bpfAlu ||| bpfLsh ||| bpfK, .move (.alu .lsh .k)),
   (bpfAlu ||| bpfRsh ||| bpfK, .move (.alu .rsh .k)),
   (bpfAlu ||| bpfNeg, .move .neg),
   (bpfMisc ||| bpfTax, .move .tax),
   (bpfMisc ||| bpfTxa, .move .txa)]

/-- `switch (pc->code)`; the `default` case is `none`. -/
def decodeOp (code : UInt16) : Option Op := opcodes.lookup code

/-! ## The machine -/

/-- What ends a run other than by a `return`. -/
inductive Fault where
  /-- `abort()` -/
  | abort
  /-- a read outside the packet -/
  | packet (size : Size) (k : UInt32)
  /-- an access outside `mem` -/
  | scratch
  | divide
  | shift
  /-- an instruction is fetched outside the program -/
  | outside
deriving DecidableEq, Repr

inductive Result where
  | ret (v : UInt32)
  | fault (f : Fault)
deriving DecidableEq, Repr

/-- `A`, `X` and the scratch memory. -/
structure Regs where
  A : UInt32
  X : UInt32
  mem : Fin bpfMemwords → UInt32

/-- The registers, or the end of the run. -/
abbrev Outcome (α : Type) := Stepped α Result

def Outcome.reject {α : Type} : Outcome α := .halt (.ret 0)

def Outcome.fault {α : Type} (f : Fault) : Outcome α := .halt (.fault f)

/-- Where a program reads. -/
structure Env where
  load : Size → UInt32 → Outcome UInt32
  wirelen : UInt32

def extractLong (a b c d : UInt8) : UInt32 :=
  a.toUInt32 <<< 24 ||| b.toUInt32 <<< 16 ||| c.toUInt32 <<< 8 ||| d.toUInt32

def extractShort (a b : UInt8) : UInt32 := a.toUInt32 <<< 8 ||| b.toUInt32

/-- The bytes at an offset, big-endian. -/
def extract : Size → Bytes → Option UInt32
  | .w, a :: b :: c :: d :: _ => some (extractLong a b c d)
  | .h, a :: b :: _ => some (extractShort a b)
  | .b, a :: _ => some a.toUInt32
  | _, _ => none

/-- The test whether a load is past the data: `k + sizeof(int32) > buflen`,
`k + sizeof(short) > buflen` and `k >= buflen`. -/
def past (buflen : ℕ) (k : UInt32) : Size → Bool
  | .w => (k.toNat + 4) % 2 ^ 32 > buflen
  | .h => (k.toNat + 2) % 2 ^ 32 > buflen
  | .b => k.toNat ≥ buflen

/-- A load of `bpf_filter`. -/
def loadPacket (p : Bytes) (size : Size) (k : UInt32) : Outcome UInt32 :=
  if past p.length k size then .reject
  else match extract size (p.drop k.toNat) with
    | some v => .next v
    | none => .fault (.packet size k)

def userland (p : Bytes) (wirelen : UInt32) : Env where
  load := loadPacket p
  wirelen := wirelen

def Cond.holds (a v : UInt32) : Cond → Bool
  | .gt => a > v
  | .ge => a ≥ v
  | .eq => a = v
  | .set => a &&& v ≠ 0

def Src.value (k : UInt32) (r : Regs) : Src → UInt32
  | .k => k
  | .x => r.X

/-- An arithmetic instruction; only the divisor in `X` is tested. -/
def Alu.apply (a v : UInt32) (src : Src) : Alu → Outcome UInt32
  | .add => .next (a + v)
  | .sub => .next (a - v)
  | .mul => .next (a * v)
  | .div =>
    if v = 0 then match src with
      | .x => .reject
      | .k => .fault .divide
    else .next (a / v)
  | .and => .next (a &&& v)
  | .or => .next (a ||| v)
  | .lsh => if v < 32 then .next (a <<< v) else .fault .shift
  | .rsh => if v < 32 then .next (a >>> v) else .fault .shift

/-- `mem[k]`. -/
def Regs.fetch (r : Regs) (k : UInt32) : Outcome UInt32 :=
  if h : k.toNat < bpfMemwords then .next (r.mem ⟨k.toNat, h⟩) else .fault .scratch

/-- `mem[k] = v`. -/
def Regs.store (r : Regs) (k v : UInt32) : Outcome Regs :=
  if h : k.toNat < bpfMemwords then
    .next { r with mem := Function.update r.mem ⟨k.toNat, h⟩ v }
  else .fault .scratch

def Regs.setA (r : Regs) (v : UInt32) : Regs := { r with A := v }

def Regs.setX (r : Regs) (v : UInt32) : Regs := { r with X := v }

def Move.perform (env : Env) (k : UInt32) (r : Regs) : Move → Outcome Regs
  | .ldAbs size => (env.load size k).bind fun v => .next (r.setA v)
  | .ldLen => .next (r.setA env.wirelen)
  | .ldxLen => .next (r.setX env.wirelen)
  | .ldInd size => (env.load size (r.X + k)).bind fun v => .next (r.setA v)
  | .ldxMsh => (env.load .b k).bind fun v => .next (r.setX ((v &&& 0xf) <<< 2))
  | .ldImm => .next (r.setA k)
  | .ldxImm => .next (r.setX k)
  | .ldMem => (r.fetch k).bind fun v => .next (r.setA v)
  | .ldxMem => (r.fetch k).bind fun v => .next (r.setX v)
  | .st => r.store k r.A
  | .stx => r.store k r.X
  | .alu op src => (op.apply r.A (src.value k r) src).bind fun v => .next (r.setA v)
  | .neg => .next (r.setA (-r.A))
  | .tax => .next (r.setX r.A)
  | .txa => .next (r.setA r.X)

structure FilterState where
  pc : ℕ
  regs : Regs

/-- Where `pc += pc->k` leads, behind the `++pc`; a program counter is a 32-bit
pointer. -/
def jaTarget (pc : ℕ) (k : UInt32) : ℕ := (pc + 1 + k.toNat) % 2 ^ 32

def jmpTarget (pc : ℕ) (i : Insn) (taken : Bool) : ℕ :=
  pc + 1 + (if taken then i.jt else i.jf).toNat

/-- One pass of the loop of `bpf_filter`. -/
def filterStep (env : Env) (f : List Insn) : Machine FilterState Result := fun s =>
  match f[s.pc]? with
  | none => .halt (.fault .outside)
  | some i =>
    match decodeOp i.code with
    | none => .halt (.fault .abort)
    | some .retK => .halt (.ret i.k)
    | some .retA => .halt (.ret s.regs.A)
    | some .ja => .next { s with pc := jaTarget s.pc i.k }
    | some (.jmp cond src) =>
      .next { s with pc := jmpTarget s.pc i (cond.holds s.regs.A (src.value i.k s.regs)) }
    | some (.move m) => (m.perform env i.k s.regs).bind fun r => .next ⟨s.pc + 1, r⟩

/-- `A` and `X` are cleared, the scratch memory holds anything. -/
def FilterState.start (mem : Fin bpfMemwords → UInt32) : FilterState := ⟨0, ⟨0, 0, mem⟩⟩

/-- `bpf_filter` on a packet of which `p` is captured, for a number of passes. -/
def bpfFilter (f : List Insn) (p : Bytes) (wirelen : UInt32) (mem : Fin bpfMemwords → UInt32)
    (passes : ℕ) : Stepped FilterState Result :=
  (filterStep (userland p wirelen) f).run passes (FilterState.start mem)

/-! ## `bpf_validate` -/

/-- The tests on the instruction at `i`. -/
def checkInsn (len i : ℕ) (p : Insn) : Bool :=
  if bpfClass p.code = bpfLd ∨ bpfClass p.code = bpfLdx then
    if bpfMode p.code = bpfImm then true
    else if bpfMode p.code = bpfAbs ∨ bpfMode p.code = bpfInd ∨ bpfMode p.code = bpfMsh then true
    else if bpfMode p.code = bpfMem then p.k.toNat < bpfMemwords
    else bpfMode p.code = bpfLen
  else if bpfClass p.code = bpfSt ∨ bpfClass p.code = bpfStx then p.k.toNat < bpfMemwords
  else if bpfClass p.code = bpfAlu then
    if bpfOp p.code ∈ [bpfAdd, bpfSub, bpfMul, bpfOr, bpfAnd, bpfLsh, bpfRsh, bpfNeg] then true
    else if bpfOp p.code = bpfDiv then !(bpfRval p.code = bpfK && p.k = 0)
    else false
  else if bpfClass p.code = bpfJmp then
    if bpfOp p.code = bpfJa then (i + 1 + p.k.toNat) % 2 ^ 32 < len
    else if bpfOp p.code ∈ [bpfJeq, bpfJgt, bpfJge, bpfJset] then
      i + 1 + p.jt.toNat < len && i + 1 + p.jf.toNat < len
    else false
  else bpfClass p.code = bpfRet || bpfClass p.code = bpfMisc

/-- The tests on the instructions from `i` on. -/
def checkInsns (len : ℕ) : ℕ → List Insn → Bool
  | _, [] => true
  | i, p :: ps => checkInsn len i p && checkInsns len (i + 1) ps

def bpfValidate (f : List Insn) : Bool :=
  match f.getLast? with
  | none => false
  | some last => checkInsns f.length 0 f && bpfClass last.code = bpfRet

/-! ## What validation demands -/

variable {f : List Insn} {env : Env} {len i : ℕ} {p : Insn} {op : Op}

/-- The codes that are decoded are listed. -/
theorem mem_opcodes {code : UInt16} (h : decodeOp code = some op) : (code, op) ∈ opcodes := by
  unfold decodeOp at h
  obtain ⟨l₁, l₂, heq, -⟩ := List.lookup_eq_some_iff.mp h
  rw [heq]
  simp

/-- The operations that use a cell of the scratch memory. -/
def Op.usesMem : Op → Bool
  | .move m => m = .ldMem || m = .ldxMem || m = .st || m = .stx
  | _ => false

def Op.isJmp : Op → Bool
  | .jmp .. => true
  | _ => false

def Op.isMove : Op → Bool
  | .move _ => true
  | _ => false

/-- Of the class `BPF_RET` there are two codes. -/
theorem class_of_ret : ∀ c ∈ opcodes, bpfClass c.1 = bpfRet → c.2 = .retK ∨ c.2 = .retA := by
  decide

/-- The unconditional jump by its class and operation. -/
theorem class_of_ja : ∀ c ∈ opcodes, c.2 = .ja → bpfClass c.1 = bpfJmp ∧ bpfOp c.1 = bpfJa := by
  decide

/-- The conditional jumps by theirs. -/
theorem class_of_jmp : ∀ c ∈ opcodes, c.2.isJmp →
    bpfClass c.1 = bpfJmp ∧ bpfOp c.1 ≠ bpfJa ∧ bpfOp c.1 ∈ [bpfJeq, bpfJgt, bpfJge, bpfJset] := by
  decide

/-- What uses the memory is a load or a store of it. -/
theorem class_of_mem : ∀ c ∈ opcodes, c.2.usesMem →
    ((bpfClass c.1 = bpfLd ∨ bpfClass c.1 = bpfLdx) ∧ bpfMode c.1 = bpfMem) ∨
      bpfClass c.1 = bpfSt ∨ bpfClass c.1 = bpfStx := by
  decide

/-- A jump that is accepted leads into the program. -/
theorem checkInsn_ja (hcheck : checkInsn len i p) (h : decodeOp p.code = some .ja) :
    jaTarget i p.k < len := by
  obtain ⟨hclass, hop⟩ := class_of_ja _ (mem_opcodes h) rfl
  simp only [checkInsn, hclass, hop] at hcheck
  simpa [jaTarget, bpfJmp, bpfLd, bpfLdx, bpfSt, bpfStx, bpfAlu] using hcheck

/-- So does each side of a branch. -/
theorem checkInsn_jmp (hcheck : checkInsn len i p) {cond : Cond} {src : Src}
    (h : decodeOp p.code = some (.jmp cond src)) (taken : Bool) : jmpTarget i p taken < len := by
  obtain ⟨hclass, hop, hmem⟩ := class_of_jmp _ (mem_opcodes h) rfl
  simp only [checkInsn, hclass, hop, hmem] at hcheck
  have hboth : i + 1 + p.jt.toNat < len ∧ i + 1 + p.jf.toNat < len := by
    simpa [bpfJmp, bpfLd, bpfLdx, bpfSt, bpfStx, bpfAlu] using hcheck
  cases taken with
  | true => exact hboth.1
  | false => exact hboth.2

/-- A memory word that is used is there. -/
theorem checkInsn_mem (hcheck : checkInsn len i p) (h : decodeOp p.code = some op)
    (huses : op.usesMem) : p.k.toNat < bpfMemwords := by
  rcases class_of_mem _ (mem_opcodes h) huses with ⟨hclass, hmode⟩ | hclass | hclass
  · rw [checkInsn, if_pos hclass, hmode] at hcheck
    simpa [bpfMem, bpfImm, bpfAbs, bpfInd, bpfMsh] using hcheck
  all_goals
    simp only [checkInsn, hclass] at hcheck
    simpa [bpfLd, bpfLdx, bpfSt, bpfStx] using hcheck

/-- `BPF_RVAL` masks a bit of `BPF_DIV`, so a division is never taken for one by a
constant: its constant is not looked at. -/
theorem checkInsn_div (hclass : bpfClass p.code = bpfAlu) (hop : bpfOp p.code = bpfDiv) :
    checkInsn len i p = true := by
  have hrval : bpfRval p.code ≠ bpfK := by
    intro hrval
    have hbit : bpfOp p.code &&& 0x10 = bpfRval p.code &&& 0x10 := by
      simp only [bpfOp, bpfRval, UInt16.and_assoc]
      rfl
    rw [hop, hrval] at hbit
    exact absurd hbit (by decide)
  simp only [checkInsn, hclass, hop]
  simp [bpfAlu, bpfLd, bpfLdx, bpfSt, bpfStx, hrval]

/-- The other instructions are loads and operations that are accepted. -/
theorem class_of_move : ∀ c ∈ opcodes, c.2.isMove → c.2.usesMem = false →
    ((bpfClass c.1 = bpfLd ∨ bpfClass c.1 = bpfLdx) ∧
      bpfMode c.1 ∈ [bpfImm, bpfAbs, bpfInd, bpfMsh, bpfLen]) ∨
    (bpfClass c.1 = bpfAlu ∧
      bpfOp c.1 ∈ [bpfAdd, bpfSub, bpfMul, bpfOr, bpfAnd, bpfLsh, bpfRsh, bpfNeg, bpfDiv]) ∨
    bpfClass c.1 = bpfMisc := by
  decide

/-- Validation lets every other instruction of the `switch` pass that does not jump. -/
theorem checkInsn_move {m : Move} (h : decodeOp p.code = some (.move m))
    (hmem : (Op.move m).usesMem → p.k.toNat < bpfMemwords) (len i : ℕ) :
    checkInsn len i p = true := by
  by_cases huses : (Op.move m).usesMem
  · have hk := hmem huses
    rcases class_of_mem _ (mem_opcodes h) huses with ⟨hclass, hmode⟩ | hclass | hclass
    · rw [checkInsn, if_pos hclass, hmode]
      simpa [bpfMem, bpfImm, bpfAbs, bpfInd, bpfMsh] using hk
    all_goals
      simp only [checkInsn, hclass]
      simpa [bpfLd, bpfLdx, bpfSt, bpfStx] using hk
  · rcases class_of_move _ (mem_opcodes h) rfl (Bool.eq_false_of_not_eq_true huses) with
      ⟨hclass, hmode⟩ | ⟨hclass, hop⟩ | hclass
    · simp only [List.mem_cons, List.not_mem_nil, or_false] at hmode
      rw [checkInsn, if_pos hclass]
      rcases hmode with hmode | hmode | hmode | hmode | hmode <;> rw [hmode] <;> rfl
    · by_cases hdiv : bpfOp p.code = bpfDiv
      · exact checkInsn_div hclass hdiv
      · have hop' : bpfOp p.code ∈
            [bpfAdd, bpfSub, bpfMul, bpfOr, bpfAnd, bpfLsh, bpfRsh, bpfNeg] := by
          simpa [hdiv] using hop
        simp only [checkInsn, hclass, hop']
        rfl
    · simp only [checkInsn, hclass]
      rfl

/-- A jump is accepted when it leads into the program. -/
theorem checkInsn_of_ja (hop : decodeOp p.code = some .ja) (h : jaTarget i p.k < len) :
    checkInsn len i p = true := by
  obtain ⟨hclass, hja⟩ := class_of_ja _ (mem_opcodes hop) rfl
  simp only [checkInsn, hclass, hja]
  simpa [jaTarget, bpfJmp, bpfLd, bpfLdx, bpfSt, bpfStx, bpfAlu] using h

/-- A branch is when both sides do. -/
theorem checkInsn_of_jmp {cond : Cond} {src : Src} (hop : decodeOp p.code = some (.jmp cond src))
    (h : ∀ taken, jmpTarget i p taken < len) : checkInsn len i p = true := by
  obtain ⟨hclass, hne, hmem⟩ := class_of_jmp _ (mem_opcodes hop) rfl
  have ht : i + 1 + p.jt.toNat < len := h true
  have hf : i + 1 + p.jf.toNat < len := h false
  simp only [checkInsn, hclass, hne, hmem]
  simp [bpfJmp, bpfLd, bpfLdx, bpfSt, bpfStx, bpfAlu, ht, hf]

theorem checkInsn_of_ret (hclass : bpfClass p.code = bpfRet) : checkInsn len i p = true := by
  simp only [checkInsn, hclass]
  rfl

/-- Each instruction is checked at its own place. -/
theorem checkInsns_get {ps : List Insn} {j : ℕ} (hcheck : checkInsns len i ps)
    (h : ps[j]? = some p) : checkInsn len (i + j) p := by
  induction ps generalizing i j with
  | nil => cases h
  | cons q ps ih =>
      simp only [checkInsns, Bool.and_eq_true] at hcheck
      cases j with
      | zero =>
          cases h
          exact hcheck.1
      | succ j =>
          have hrest := ih hcheck.2 h
          rwa [Nat.add_right_comm, Nat.add_assoc] at hrest

/-- So it is in a program that was accepted. -/
theorem checkInsn_of_validate (hvalid : bpfValidate f) (h : f[i]? = some p) :
    checkInsn f.length i p := by
  unfold bpfValidate at hvalid
  split at hvalid
  · cases hvalid
  · rw [Bool.and_eq_true] at hvalid
    have hcheck := checkInsns_get hvalid.1 h
    rwa [Nat.zero_add] at hcheck

/-- An accepted program is not empty. -/
theorem length_pos_of_validate (hvalid : bpfValidate f) : 0 < f.length := by
  cases f with
  | nil => cases hvalid
  | cons p ps => exact Nat.succ_pos _

/-- The last instruction does not go on to the next one. -/
theorem succ_lt_of_validate {m : Move} (hvalid : bpfValidate f) (h : f[i]? = some p)
    (hop : decodeOp p.code = some (.move m)) : i + 1 < f.length := by
  have hi : i < f.length := (List.getElem?_eq_some_iff.mp h).1
  by_contra hlast
  have heq : f.getLast? = some p := by
    rw [List.getLast?_eq_getElem?, ← h]
    congr 1
    omega
  unfold bpfValidate at hvalid
  rw [heq] at hvalid
  simp only [Bool.and_eq_true, decide_eq_true_eq] at hvalid
  rcases class_of_ret _ (mem_opcodes hop) hvalid.2 with hret | hret <;> cases hret

/-! ## Validated programs are safe -/

/-- The faults that validation does not exclude: a code that `bpf_validate` lets
through and the `switch` has no case for, a load whose end is past 2³², a division by
a constant zero, a shift. -/
def Fault.Admitted (f : List Insn) : Fault → Prop
  | .abort => ∃ p ∈ f, decodeOp p.code = none
  | .packet size k => size ≠ .b ∧ 2 ^ 32 ≤ k.toNat + size.bytes
  | .divide => ∃ p ∈ f, decodeOp p.code = some (.move (.alu .div .k)) ∧ p.k = 0
  | .shift => ∃ p ∈ f, ∃ src, decodeOp p.code = some (.move (.alu .lsh src)) ∨
      decodeOp p.code = some (.move (.alu .rsh src))
  | .scratch | .outside => False

def Result.Admitted (f : List Insn) : Result → Prop
  | .ret _ => True
  | .fault x => x.Admitted f

/-- The loads of an environment only fault at the end of the address space. -/
def Env.Sound (env : Env) : Prop :=
  ∀ size k r, env.load size k = .halt r →
    ∀ f : List Insn, r.Admitted f

/-- A number can be read where there are enough bytes. -/
theorem extract_isSome {size : Size} {bs : Bytes} (h : size.bytes ≤ bs.length) :
    (extract size bs).isSome := by
  cases size with
  | w =>
      match bs, h with
      | _ :: _ :: _ :: _ :: _, _ => rfl
  | h =>
      match bs, h with
      | _ :: _ :: _, _ => rfl
  | b =>
      match bs, h with
      | _ :: _, _ => rfl

/-- In userland a load reads the packet or rejects it. -/
theorem userland_sound (q : Bytes) (wirelen : UInt32) : (userland q wirelen).Sound := by
  intro size k r hload f
  simp only [userland, loadPacket] at hload
  split at hload
  · cases hload
    trivial
  · rename_i hpast
    split at hload
    · cases hload
    · rename_i hnone
      cases hload
      -- the test passed although the bytes are not there: the sum has wrapped
      have hshort : ¬ size.bytes ≤ (q.drop k.toNat).length := by
        intro hle
        have := extract_isSome hle
        rw [hnone] at this
        cases this
      rw [List.length_drop] at hshort
      have hk := k.toNat_lt
      cases size <;> simp only [past, decide_eq_true_eq, Size.bytes, Nat.not_lt, ge_iff_le,
        Nat.not_le, gt_iff_lt] at hpast hshort
      · exact ⟨by decide, by simp only [Size.bytes]; omega⟩
      · exact ⟨by decide, by simp only [Size.bytes]; omega⟩
      · omega

/-- An operation ends the program by a division by 0, or a shift that C does not
define. -/
theorem apply_admitted {r : Regs} {src : Src} {alu : Alu} {x : Result}
    (hmem : p ∈ f) (hop : decodeOp p.code = some (.move (.alu alu src)))
    (h : alu.apply r.A (src.value p.k r) src = .halt x) : x.Admitted f := by
  cases alu with
  | add | sub | mul | and | or => cases h
  | div =>
      simp only [Alu.apply] at h
      split at h
      · rename_i hv
        cases src with
        | x =>
            cases h
            trivial
        | k =>
            cases h
            exact ⟨p, hmem, hop, hv⟩
      · cases h
  | lsh =>
      simp only [Alu.apply] at h
      split at h
      · cases h
      · cases h
        exact ⟨p, hmem, src, .inl hop⟩
  | rsh =>
      simp only [Alu.apply] at h
      split at h
      · cases h
      · cases h
        exact ⟨p, hmem, src, .inr hop⟩

/-- A memory word that was accepted can be read. -/
theorem fetch_admitted {r : Regs} {k : UInt32} {x : Result} (hk : k.toNat < bpfMemwords)
    (h : r.fetch k = .halt x) : x.Admitted f := by
  rw [Regs.fetch, dif_pos hk] at h
  cases h

/-- And it can be written. -/
theorem store_admitted {r : Regs} {k v : UInt32} {x : Result} (hk : k.toNat < bpfMemwords)
    (h : r.store k v = .halt x) : x.Admitted f := by
  rw [Regs.store, dif_pos hk] at h
  cases h

/-- An instruction of a validated program halts with an admitted result only. -/
theorem perform_admitted (hvalid : bpfValidate f) (henv : env.Sound) {m : Move} {r : Regs}
    {x : Result} (hp : f[i]? = some p) (hop : decodeOp p.code = some (.move m))
    (h : m.perform env p.k r = .halt x) : x.Admitted f := by
  have hcheck := checkInsn_of_validate hvalid hp
  cases m with
  | ldLen | ldxLen | ldImm | ldxImm | neg | tax | txa => cases h
  | ldAbs | ldInd | ldxMsh =>
      simp only [Move.perform, Stepped.bind_eq_halt] at h
      rcases h with h | ⟨v, -, h⟩
      · exact henv _ _ _ h f
      · cases h
  | ldMem | ldxMem =>
      simp only [Move.perform, Stepped.bind_eq_halt] at h
      rcases h with h | ⟨v, -, h⟩
      · exact fetch_admitted (checkInsn_mem hcheck hop rfl) h
      · cases h
  | st | stx => exact store_admitted (checkInsn_mem hcheck hop rfl) h
  | alu alu src =>
      simp only [Move.perform, Stepped.bind_eq_halt] at h
      rcases h with h | ⟨v, -, h⟩
      · exact apply_admitted (List.mem_of_getElem? hp) hop h
      · cases h

/-- What a pass of the loop can do. -/
theorem filterStep_cases {s s' : FilterState} (h : filterStep env f s = .next s') :
    ∃ p, f[s.pc]? = some p ∧
      ((decodeOp p.code = some .ja ∧ s' = { s with pc := jaTarget s.pc p.k }) ∨
       (∃ cond src taken, decodeOp p.code = some (.jmp cond src) ∧
          taken = cond.holds s.regs.A (src.value p.k s.regs) ∧
          s' = { s with pc := jmpTarget s.pc p taken }) ∨
       ∃ m r, decodeOp p.code = some (.move m) ∧ m.perform env p.k s.regs = .next r ∧
          s' = ⟨s.pc + 1, r⟩) := by
  unfold filterStep at h
  split at h
  · cases h
  · rename_i p hp
    refine ⟨p, hp, ?_⟩
    split at h
    · cases h
    · cases h
    · cases h
    · rename_i hop
      cases h
      exact .inl ⟨hop, rfl⟩
    · rename_i cond src hop
      cases h
      exact .inr (.inl ⟨cond, src, _, hop, rfl, rfl⟩)
    · rename_i m hop
      obtain ⟨r, hr, heq⟩ := Stepped.bind_eq_next.mp h
      cases heq
      exact .inr (.inr ⟨m, r, hop, hr, rfl⟩)

/-- The program counter of a validated program stays in it. -/
theorem step_pc_lt (hvalid : bpfValidate f) {s s' : FilterState}
    (h : filterStep env f s = .next s') :
    s'.pc < f.length := by
  obtain ⟨p, hp, ⟨hop, rfl⟩ | ⟨cond, src, taken, hop, -, rfl⟩ | ⟨m, r, hop, -, rfl⟩⟩ :=
    filterStep_cases h
  · exact checkInsn_ja (checkInsn_of_validate hvalid hp) hop
  · exact checkInsn_jmp (checkInsn_of_validate hvalid hp) hop taken
  · exact succ_lt_of_validate hvalid hp hop

/-- What ends an accepted program is admitted. -/
theorem step_admitted (hvalid : bpfValidate f) (henv : env.Sound) {s : FilterState} {r : Result}
    (hs : s.pc < f.length) (h : filterStep env f s = .halt r) : r.Admitted f := by
  have hget := List.getElem?_eq_getElem hs
  unfold filterStep at h
  rw [hget] at h
  simp only at h
  split at h
  · rename_i hop
    cases h
    exact ⟨_, List.getElem_mem hs, hop⟩
  · cases h
    trivial
  · cases h
    trivial
  · cases h
  · cases h
  · rename_i m hop
    rcases Stepped.bind_eq_halt.mp h with hm | ⟨x, -, hx⟩
    · exact perform_admitted hvalid henv hget hop hm
    · cases hx

/-! ## Programs without backward jumps end -/

/-- No unconditional jump wraps around. -/
def Forward (f : List Insn) : Prop :=
  ∀ i p, f[i]? = some p → decodeOp p.code = some .ja → i + 1 + p.k.toNat < 2 ^ 32

/-- A forward program goes forward. -/
theorem step_pc_up (hforward : Forward f) {s s' : FilterState} (h : filterStep env f s = .next s') :
    s.pc < s'.pc := by
  obtain ⟨p, hp, ⟨hop, rfl⟩ | ⟨cond, src, taken, hop, -, rfl⟩ | ⟨m, r, hop, -, rfl⟩⟩ :=
    filterStep_cases h
  · have hlt := hforward _ p hp hop
    simp only [jaTarget, Nat.mod_eq_of_lt hlt]
    omega
  · simp only [jmpTarget]
    omega
  · exact Nat.lt_succ_self _

/-- A validated program without backward jumps returns after as many passes as it
has instructions, at most. -/
theorem bpfFilter_halts (hvalid : bpfValidate f) (hforward : Forward f) (q : Bytes)
    (wirelen : UInt32) (mem : Fin bpfMemwords → UInt32) :
    ∃ r, bpfFilter f q wirelen mem f.length = .halt r := by
  obtain ⟨r, hr⟩ := Machine.run_halts (m := filterStep (userland q wirelen) f)
    (I := fun s => s.pc < f.length) (s := FilterState.start mem) (fun s => f.length - 1 - s.pc)
    (fun s s' hs h => by
      have hlt := step_pc_lt hvalid h
      have hup := step_pc_up hforward h
      exact ⟨hlt, by omega⟩) (length_pos_of_validate hvalid)
  have hpos := length_pos_of_validate hvalid
  have hpasses : f.length - 1 - (FilterState.start mem).pc + 1 = f.length := by
    simp only [FilterState.start]
    omega
  rw [hpasses] at hr
  exact ⟨r, hr⟩

/-- A validated program, on every packet and for every number of passes: the
program counter stays in the program, the scratch memory is accessed inside its
words, and a load outside the packet is one whose end is past 2³². Without backward
jumps the program returns. -/
theorem bpfFilter_safe (hvalid : bpfValidate f) (q : Bytes) (wirelen : UInt32)
    (mem : Fin bpfMemwords → UInt32) :
    (∀ passes, (∀ s, bpfFilter f q wirelen mem passes = .next s → s.pc < f.length) ∧
      ∀ r, bpfFilter f q wirelen mem passes = .halt r → r.Admitted f) ∧
      (Forward f → ∃ r, bpfFilter f q wirelen mem f.length = .halt r) := by
  refine ⟨fun passes => ?_, fun hforward => bpfFilter_halts hvalid hforward q wirelen mem⟩
  exact Machine.run_invariant (m := filterStep (userland q wirelen) f) (s := FilterState.start mem)
    (I := fun s => s.pc < f.length) (fun _ _ _ h => step_pc_lt hvalid h)
    (fun _ _ hs h => step_admitted hvalid (userland_sound q wirelen) hs h)
    passes (length_pos_of_validate hvalid)

/-- IPv4 over Ethernet. -/
def ipFilter : List Insn :=
  [⟨bpfLd ||| bpfAbs ||| bpfH, 0, 0, 12⟩, ⟨bpfJmp ||| bpfJeq ||| bpfK, 0, 1, 0x800⟩,
    ⟨bpfRet ||| bpfK, 0, 0, 65535⟩, ⟨bpfRet ||| bpfK, 0, 0, 0⟩]

/-- An Ethernet header with the type IPv4. -/
def ipPacket : Bytes := List.replicate 12 0 ++ [8, 0]

theorem bpfFilter_safe_ipFilter :
    bpfValidate ipFilter ∧ bpfFilter ipFilter ipPacket 60 (fun _ => 7) 4 = .halt (.ret 65535) ∧
      (∀ passes, (∀ s, bpfFilter ipFilter ipPacket 60 (fun _ => 7) passes = .next s → s.pc < 4) ∧
        ∀ r, bpfFilter ipFilter ipPacket 60 (fun _ => 7) passes = .halt r → r.Admitted ipFilter) ∧
      (Forward ipFilter → ∃ r, bpfFilter ipFilter ipPacket 60 (fun _ => 7) 4 = .halt r) :=
  ⟨by decide, rfl, bpfFilter_safe (by decide) ipPacket 60 fun _ => 7⟩

/-! ## Programs that return -/

/-- A program that `bpf_validate` accepts and that returns for every packet, within a
number of passes: it runs into none of the faults. -/
structure BpfProgram where
  insns : List Insn
  valid : bpfValidate insns
  passes : ℕ
  returns : ∀ q wirelen mem, ∃ v, bpfFilter insns q wirelen mem passes = .halt (.ret v)

namespace BpfProgram

variable (P : BpfProgram) (q : Bytes) (wirelen : UInt32) (mem : Fin bpfMemwords → UInt32)

/-- What `bpf_filter` returns. -/
def value : UInt32 :=
  match h : bpfFilter P.insns q wirelen mem P.passes with
  | .halt (.ret v) => v
  | .halt (.fault _) | .next _ => absurd (P.returns q wirelen mem) (by simp [h])

/-- The filter returns its value. -/
theorem bpfFilter_eq :
    bpfFilter P.insns q wirelen mem P.passes = .halt (.ret (P.value q wirelen mem)) := by
  unfold value
  split
  · assumption
  all_goals
    rename_i h
    exact absurd (P.returns q wirelen mem) (by simp [h])

/-- Every run to the end has this value. -/
theorem value_eq {v : UInt32} {passes : ℕ}
    (h : bpfFilter P.insns q wirelen mem passes = .halt (.ret v)) :
    P.value q wirelen mem = v := by
  have hyields : (filterStep (userland q wirelen) P.insns).Yields (FilterState.start mem)
      (.ret (P.value q wirelen mem)) := ⟨_, P.bpfFilter_eq q wirelen mem⟩
  exact Result.ret.inj (hyields.unique ⟨_, h⟩)

end BpfProgram

/-- A load that ends below 2³² does not fault. -/
theorem loadPacket_ne_fault {q : Bytes} {size : Size} {k : UInt32} {x : Fault}
    (h : k.toNat + size.bytes ≤ 2 ^ 32 - 1) : loadPacket q size k ≠ .halt (.fault x) := by
  intro hfault
  have hadmitted := userland_sound q 0 size k _ hfault []
  unfold loadPacket at hfault
  split at hfault
  · cases hfault
  · split at hfault
    · cases hfault
    · cases hfault
      have hle := hadmitted.2
      omega

/-- The filter for IP returns on every packet. -/
theorem ipFilter_returns (q : Bytes) (wirelen : UInt32) (mem : Fin bpfMemwords → UInt32) :
    ∃ v, bpfFilter ipFilter q wirelen mem 4 = .halt (.ret v) := by
  have hload : filterStep (userland q wirelen) ipFilter (.start mem) =
      (loadPacket q .h 12).bind fun a => .next ⟨1, ⟨a, 0, mem⟩⟩ := Stepped.bind_assoc _ _ _
  rw [bpfFilter, Machine.run_succ, hload]
  cases hl : loadPacket q .h 12 with
  | halt r =>
      cases r with
      | ret v => exact ⟨v, rfl⟩
      | fault x => exact absurd hl (loadPacket_ne_fault (by decide))
  | next a =>
      have hjmp : filterStep (userland q wirelen) ipFilter ⟨1, ⟨a, 0, mem⟩⟩ =
          .next ⟨jmpTarget 1 ⟨bpfJmp ||| bpfJeq ||| bpfK, 0, 1, 0x800⟩ (a = 0x800 : Bool),
            ⟨a, 0, mem⟩⟩ := rfl
      show ∃ v, (filterStep (userland q wirelen) ipFilter).run (2 + 1) ⟨1, ⟨a, 0, mem⟩⟩ = _
      rw [Machine.run_succ, hjmp]
      cases (a = 0x800 : Bool) with
      | true => exact ⟨65535, rfl⟩
      | false => exact ⟨0, rfl⟩

def noScratch : Fin bpfMemwords → UInt32 := fun _ => 0

def ipProgram : BpfProgram where
  insns := ipFilter
  valid := by decide
  passes := 4
  returns := ipFilter_returns

end MobiPerf.Capture
