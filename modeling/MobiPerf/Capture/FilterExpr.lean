import Mathlib.Algebra.BigOperators.Intervals
import Mathlib.Order.Interval.Finset.Nat
import MobiPerf.Capture.FilterGraph

/-!
# Capture.FilterExpr — the graph of a filter expression

An expression of the filter language, below the protocols: tests put together by
`and`, `or` and `not`, as the parser's actions do. Its meaning (`Expr.eval`) is
short-circuit evaluation over the registers; a test may also end the filter, when
it loads past the end of the packet, and a `not` in front of it does not turn that.

`compile_yields` says that the graph `finish_parse` leaves behind has this meaning,
with the snapshot length for true and 0 for false.
-/

namespace MobiPerf.Capture

open Lib

/-! ## The meaning of blocks -/

/-- The statements of a block move on to the next one; they do not jump. -/
def FilterStmt.perform (env : Env) (t : FilterStmt) (r : Regs) : Outcome Regs :=
  match decodeOp t.code with
  | some (.move m) => m.perform env t.k r
  | _ => .fault .abort

/-- A statement performs the instruction it is decoded to. -/
theorem perform_of_decode {env : Env} {t : FilterStmt} {m : Move} {r : Regs}
    (h : decodeOp t.code = some (.move m)) : t.perform env r = m.perform env t.k r := by
  simp only [FilterStmt.perform, h]

def runStmts (env : Env) : List FilterStmt → Regs → Outcome Regs
  | [], r => .next r
  | t :: ts, r => (t.perform env r).bind (runStmts env ts)

/-- The branch of a block takes a side or returns. -/
def FilterStmt.branch (s : FilterStmt) (r : Regs) : Stepped (Bool × Regs) Result :=
  match decodeOp s.code with
  | some (.jmp cond src) => .next (cond.holds r.A (src.value s.k r), r)
  | some .retK => .halt (.ret s.k)
  | some .retA => .halt (.ret r.A)
  | _ => .halt (.fault .abort)

def execCode (env : Env) (code : List FilterStmt × FilterStmt) (r : Regs) :
    Stepped (Bool × Regs) Result :=
  (runStmts env code.1 r).bind code.2.branch

/-- A run over the graph, from block to block. -/
def graphStep (env : Env) (G : Graph) : Machine (ℕ × Regs) Result := fun c =>
  match execCode env (G.code c.1) c.2 with
  | .halt x => .halt x
  | .next (side, r) =>
    match G.edge c.1 side with
    | some j => .next (j, r)
    | none => .halt (.fault .outside)

/-! ## Expressions -/

/-- The code of a block that tests: plain statements and a conditional jump. -/
structure Test where
  s0 : Slist
  s : FilterStmt
  cond : ∃ cond src, decodeOp s.code = some (.jmp cond src)

inductive Expr where
  | test (t : Test)
  | and (a b : Expr)
  | or (a b : Expr)
  | not (a : Expr)

abbrev Test.stmts (t : Test) : List FilterStmt := t.s0.stmts

def Test.code (t : Test) : List FilterStmt × FilterStmt := (t.stmts, t.s)

/-- More instructions than an expression needs: each branch may need two jumps. -/
def Expr.bound : Expr → ℕ
  | test t => t.stmts.length + 3
  | and a b => a.bound + b.bound
  | or a b => a.bound + b.bound
  | not a => a.bound

/-- What the blocks of an expression are built from; `and`, `or` and `not` only link
them. -/
def Expr.pieces : Expr → List Piece
  | test t => t.s0.pieces ++ [.block]
  | and a b => a.pieces ++ b.pieces
  | or a b => a.pieces ++ b.pieces
  | not a => a.pieces

/-- Short-circuit evaluation. -/
def Expr.eval (env : Env) : Expr → Regs → Leaving Regs Result
  | test t, r => Leaving.ofBlock (execCode env t.code r)
  | and a b, r => (a.eval env r).andThen true (b.eval env)
  | or a b, r => (a.eval env r).andThen false (b.eval env)
  | not a, r => (a.eval env r).swap

/-- The actions of the parser; the result is the block `$$.b`. -/
def Expr.gen : Expr → Graph → Option (Graph × ℕ)
  | test t, G => some (newBlock G t.s0 t.s)
  | and a b, G => do
    let (G, b0) ← a.gen G
    let (G, b1) ← b.gen G
    let G ← genAnd G b0 b1
    return (G, b1)
  | or a b, G => do
    let (G, b0) ← a.gen G
    let (G, b1) ← b.gen G
    let G ← genOr G b0 b1
    return (G, b1)
  | not a, G => do
    let (G, b) ← a.gen G
    return (genNot G b, b)

/-- Before the first chunk is allocated. -/
def Graph.empty : Graph where
  size := 0
  block _ :=
    { stmts := [], s := ⟨0, 0⟩, sense := false, jt := none, jf := none, head := 0 }
  pieces := []

/-- The graph that the parser leaves, and `root`: an empty filter accepts. -/
def parseGraph (snaplen : UInt32) : Option Expr → Option (Graph × ℕ)
  | none => some (genRetblk Graph.empty snaplen)
  | some e => do
    let (G, b) ← e.gen Graph.empty
    finishParse snaplen G b

/-- The verdict of the filter. -/
def verdict (snaplen : UInt32) : Leaving Regs Result → Result
  | .done x => x
  | .exit true _ => .ret snaplen
  | .exit false _ => .ret 0

/-- The result a filter has: none accepts. -/
def filterResult (snaplen : UInt32) (env : Env) (r : Regs) : Option Expr → Result
  | none => .ret snaplen
  | some e => verdict snaplen (e.eval env r)

/-! ## New blocks -/

section NewBlock

variable (G : Graph) (s0 : Slist) (s : FilterStmt)

/-- A new block leaves the others. -/
theorem newBlock_block_of_lt {i : ℕ} (hi : i < G.size) :
    (newBlock G s0 s).1.block i = G.block i :=
  Function.update_of_ne (Nat.ne_of_lt hi) _ _

/-- It has no edges, and is its own head. -/
theorem newBlock_block : (newBlock G s0 s).1.block G.size =
    { stmts := s0.stmts, s := s, sense := false, jt := none, jf := none, head := G.size } :=
  Function.update_self _ _ _

@[simp] theorem newBlock_size : (newBlock G s0 s).1.size = G.size + 1 := rfl

@[simp] theorem newBlock_pieces :
    (newBlock G s0 s).1.pieces = G.pieces ++ (s0.pieces ++ [.block]) := rfl

/-- A new block has the statements and the branch it was made with. -/
theorem newBlock_code : (newBlock G s0 s).1.code G.size = (s0.stmts, s) := by
  rw [Graph.code, newBlock_block]

theorem newBlock_edge (side : Bool) : (newBlock G s0 s).1.edge G.size side = none := by
  rw [Graph.edge, newBlock_block]
  cases side <;> rfl

/-- The older blocks keep their statements. -/
theorem newBlock_code_of_lt {i : ℕ} (hi : i < G.size) :
    (newBlock G s0 s).1.code i = G.code i := by
  rw [Graph.code, newBlock_block_of_lt G s0 s hi]
  rfl

theorem newBlock_edge_of_lt {i : ℕ} (hi : i < G.size) (side : Bool) :
    (newBlock G s0 s).1.edge i side = G.edge i side := by
  rw [Graph.edge, newBlock_block_of_lt G s0 s hi]
  rfl

theorem newBlock_own_of_lt {i : ℕ} (hi : i < G.size) :
    (newBlock G s0 s).1.own i = G.own i := by
  rw [Graph.own, newBlock_block_of_lt G s0 s hi]
  rfl

theorem newBlock_headOf_of_lt {i : ℕ} (hi : i < G.size) :
    (newBlock G s0 s).1.headOf i = G.headOf i := by
  rw [Graph.headOf, newBlock_block_of_lt G s0 s hi]
  rfl

/-- A new block is a fragment with both its sides as exits. -/
theorem newBlock_represents :
    Represents (newBlock G s0 s).1 G.size (Flow.single G.size) := by
  have hown : ∀ e, ((newBlock G s0 s).1.turn G.size e).own G.size = e := by
    intro e
    rw [own_turn, Graph.own, newBlock_block]
    cases e <;> simp
  refine ⟨?_, ?_, ?_, ?_⟩
  · rw [Graph.headOf, newBlock_block]
    rfl
  · intro i _ side j hj
    cases hj
  · intro i hi
    rw [Finset.mem_singleton.mp hi]
    exact Nat.lt_succ_self _
  · intro e
    refine ⟨[G.size], ⟨rfl, ?_⟩, List.nodup_singleton _, ?_⟩
    · rw [edge_turn, newBlock_edge]
      rfl
    · intro i side
      simp only [List.mem_singleton, Flow.single, Finset.mem_singleton, Target.exit.injEq]
      constructor
      · rintro ⟨rfl, hside⟩
        exact ⟨rfl, hside.trans (hown e)⟩
      · rintro ⟨rfl, hside⟩
        exact ⟨rfl, hside.trans (hown e).symm⟩

end NewBlock

/-! ## The parser's actions -/

/-- What an expression allocates, from `G` on, decides it. -/
structure Generates (G H : Graph) (b : ℕ) (e : Expr) (F : Flow ℕ) : Prop where
  represents : Represents H b F
  nodes : F.nodes = Finset.Ico G.size H.size
  up : ∀ i ∈ F.nodes, ∀ side j, F.succ i side = .node j → i < j
  decides : ∀ env, F.Decides (fun i => execCode env (H.code i)) (e.eval env)
  block : ∀ i < G.size, H.block i = G.block i
  test : ∀ i ∈ F.nodes, ∃ t : Test, H.code i = t.code
  bound : ∑ i ∈ F.nodes, ((H.code i).1.length + 3) = e.bound
  pieces : H.pieces = G.pieces ++ e.pieces

namespace Generates

variable {G G1 G2 H : Graph} {b b0 b1 : ℕ} {a c e : Expr} {F F0 F1 : Flow ℕ}

/-- Every expression adds a block. -/
theorem size_lt (h : Generates G H b e F) : G.size < H.size := by
  have hb := h.represents.self_mem
  rw [h.nodes, Finset.mem_Ico] at hb
  omega

/-- A test is one block. -/
theorem newBlock (G : Graph) (t : Test) :
    Generates G (newBlock G t.s0 t.s).1 G.size (.test t) (Flow.single G.size) := by
  refine ⟨newBlock_represents G _ _, ?_, ?_, ?_, ?_, ?_, ?_, rfl⟩
  · rw [newBlock_size, Nat.Ico_succ_singleton]
    rfl
  · intro i _ side j hj
    cases hj
  · intro env
    have hdecides : (Flow.single G.size).Decides
        (fun i => execCode env ((Capture.newBlock G t.s0 t.s).1.code i)) _ :=
      Flow.decides_single G.size
    rw [newBlock_code] at hdecides
    exact hdecides
  · exact fun i hi => newBlock_block_of_lt G _ _ hi
  · intro i hi
    rw [Finset.mem_singleton.mp hi, newBlock_code]
    exact ⟨t, rfl⟩
  · show ∑ i ∈ {G.size}, _ = _
    rw [Finset.sum_singleton, newBlock_code]
    rfl

/-- A negation exchanges the exits. -/
theorem not (h : Generates G H b a F) : Generates G (genNot H b) b (.not a) F.swap := by
  refine ⟨h.represents.flip, h.nodes, ?_, ?_, ?_, ?_, ?_, h.pieces⟩
  · intro i hi side j hj
    exact h.up i hi side j (Target.swap_eq_node.mp hj)
  · intro env
    simp only [genNot, code_flip]
    exact (h.decides env).swap
  · intro i hi
    have hb := h.represents.self_mem
    rw [h.nodes, Finset.mem_Ico] at hb
    rw [genNot, Graph.flip, block_modify, if_neg (by omega)]
    exact h.block i hi
  · intro i hi
    rw [genNot, code_flip]
    exact h.test i hi
  · simp only [genNot, code_flip]
    exact h.bound

/-- The first expression is not touched by the second. -/
theorem disjoint (h0 : Generates G G1 b0 a F0) (h1 : Generates G1 G2 b1 c F1) :
    Disjoint F0.nodes F1.nodes := by
  rw [h0.nodes, h1.nodes]
  exact Finset.Ico_disjoint_Ico_consecutive _ _ _

/-- The code of the first operand is still there behind that of the second. -/
theorem represents_fst (h0 : Generates G G1 b0 a F0) (h1 : Generates G1 G2 b1 c F1) :
    Represents G2 b0 F0 :=
  h0.represents.congr h1.size_lt.le fun i hi => h1.block i (h0.represents.lt i hi)

/-- Two expressions, put in sequence at an exit. -/
theorem seq {d : Bool} (h0 : Generates G G1 b0 a F0) (h1 : Generates G1 G2 b1 c F1)
    (hrep : Represents H b1 (F0.seq d F1)) (hsame : SameElsewhere (F0.nodes ∪ F1.nodes) G2 H)
    (he : ∀ env r, e.eval env r = (a.eval env r).andThen d (c.eval env))
    (hbound : e.bound = a.bound + c.bound) (hpieces : e.pieces = a.pieces ++ c.pieces) :
    Generates G H b1 e (F0.seq d F1) := by
  -- the two parts stand one behind the other, so the first one's code is what it was
  have hcode0 : ∀ i ∈ F0.nodes, H.code i = G1.code i := by
    intro i hi
    rw [hsame.code, Graph.code, Graph.code, h1.block i (h0.represents.lt i hi)]
  refine ⟨hrep, ?_, ?_, ?_, ?_, ?_, ?_, ?_⟩
  · show F0.nodes ∪ F1.nodes = _
    rw [h0.nodes, h1.nodes, hsame.size]
    exact Finset.Ico_union_Ico_eq_Ico h0.size_lt.le h1.size_lt.le
  · intro i hi side j hj
    by_cases hi0 : i ∈ F0.nodes
    · simp only [Flow.seq, if_pos hi0] at hj
      -- an edge of the first part stays inside, or goes to the head of the second
      rcases Target.redirect_eq_node.mp hj with hnode | ⟨-, rfl⟩
      · exact h0.up i hi0 side j hnode
      · have hhead := F1.head_mem
        rw [h1.nodes, Finset.mem_Ico] at hhead
        exact Nat.lt_of_lt_of_le (h0.represents.lt i hi0) hhead.1
    · simp only [Flow.seq, if_neg hi0] at hj
      exact h1.up i ((Finset.mem_union.mp hi).resolve_left hi0) side j hj
  · intro env
    rw [show e.eval env = fun r => (a.eval env r).andThen d (c.eval env) from funext (he env)]
    refine Flow.Decides.seq (h0.disjoint h1) ?_ ?_
    · exact (h0.decides env).congr fun i hi => by rw [hcode0 i hi]
    · exact (h1.decides env).congr fun i _ => by rw [hsame.code]
  · intro i hi
    rw [hsame.block, h1.block i (hi.trans h0.size_lt), h0.block i hi]
    rw [h0.nodes, h1.nodes, Finset.mem_union, Finset.mem_Ico, Finset.mem_Ico]
    have hlt := h0.size_lt
    omega
  · intro i hi
    rcases Finset.mem_union.mp hi with hi | hi
    · rw [hcode0 i hi]
      exact h0.test i hi
    · rw [hsame.code]
      exact h1.test i hi
  · show ∑ i ∈ F0.nodes ∪ F1.nodes, _ = _
    rw [Finset.sum_union (h0.disjoint h1), hbound, ← h0.bound, ← h1.bound]
    congr 1
    · exact Finset.sum_congr rfl fun i hi => by rw [hcode0 i hi]
    · exact Finset.sum_congr rfl fun i _ => by rw [hsame.code]
  · rw [hsame.pieces, h1.pieces, h0.pieces, hpieces, List.append_assoc]

end Generates

/-- The actions of the parser never run over the end of a list, and their block
stands for the expression. -/
theorem gen_generates (e : Expr) (G : Graph) :
    ∃ H b F, e.gen G = some (H, b) ∧ Generates G H b e F := by
  induction e generalizing G with
  | test t => exact ⟨_, _, _, rfl, Generates.newBlock G t⟩
  | and a c iha ihc =>
      obtain ⟨G1, b0, F0, hgen0, h0⟩ := iha G
      obtain ⟨G2, b1, F1, hgen1, h1⟩ := ihc G1
      obtain ⟨H, hand, hrep, hsame⟩ :=
        genAnd_spec (h0.represents_fst h1) h1.represents (h0.disjoint h1)
      refine ⟨H, b1, F0.seq true F1, ?_, h0.seq h1 hrep hsame (fun _ _ => rfl) rfl rfl⟩
      simp [Expr.gen, hgen0, hgen1, hand]
  | or a c iha ihc =>
      obtain ⟨G1, b0, F0, hgen0, h0⟩ := iha G
      obtain ⟨G2, b1, F1, hgen1, h1⟩ := ihc G1
      obtain ⟨H, hor, hrep, hsame⟩ :=
        genOr_spec (h0.represents_fst h1) h1.represents (h0.disjoint h1)
      refine ⟨H, b1, F0.seq false F1, ?_, h0.seq h1 hrep hsame (fun _ _ => rfl) rfl rfl⟩
      simp [Expr.gen, hgen0, hgen1, hor]
  | not a iha =>
      obtain ⟨H, b, F, hgen, h⟩ := iha G
      exact ⟨genNot H b, b, F.swap, by simp [Expr.gen, hgen], h.not⟩

/-! ## `finish_parse` -/

/-- The exits lead to two blocks behind the graph. -/
def resolve (n : ℕ) : Target ℕ → ℕ
  | .node j => j
  | .exit true => n
  | .exit false => n + 1

/-- The graph of a fragment, with a block that accepts and one that drops. -/
structure Finished (snaplen : UInt32) (G H : Graph) (F : Flow ℕ) : Prop where
  size : H.size = G.size + 2
  code : ∀ i < G.size, H.code i = G.code i
  accept : H.code G.size = ([], ⟨bpfRet ||| bpfK, snaplen⟩)
  drop : H.code (G.size + 1) = ([], ⟨bpfRet ||| bpfK, 0⟩)
  edge : ∀ i ∈ F.nodes, ∀ side, H.edge i side = some (resolve G.size (F.succ i side))
  last : ∀ i, G.size ≤ i → i < H.size → ∀ side, H.edge i side = none
  pieces : H.pieces = G.pieces ++ [.block, .block]

section Finish

variable {G : Graph} {p : ℕ} {F : Flow ℕ}

/-- `finish_parse` returns the head of the filter's blocks, with both exits set. -/
theorem finishParse_spec (snaplen : UInt32) (h : Represents G p F) :
    ∃ H, finishParse snaplen G p = some (H, F.head) ∧ Finished snaplen G H F := by
  -- behind the allocation of the first block
  have h0 : Represents (genRetblk G snaplen).1 p F :=
    h.congr (Nat.le_succ _) fun i hi => newBlock_block_of_lt G _ _ (h.lt i hi)
  obtain ⟨ts, hts⟩ := h0.exits true
  obtain ⟨fs, hfs⟩ := h0.exits false
  have hts_lt : ∀ i ∈ ts, i < G.size := fun i hi => h.lt i (hts.mem_nodes hi)
  have hfs_lt : ∀ i ∈ fs, i < G.size := fun i hi => h.lt i (hfs.mem_nodes hi)
  generalize hG0 : (genRetblk G snaplen).1 = G0 at *
  have hsize0 : G0.size = G.size + 1 := by
    rw [← hG0]
    rfl
  have haccept : backpatch G0.size G0 (some p) G.size = some (patched G0 ts G.size) :=
    backpatch_eq hts.threads hts.nodup (h0.length_le hts)
  generalize hG2 : (patched G0 ts G.size).flip p = G2
  have hsize2 : G2.size = G.size + 1 := by
    rw [← hG2, size_flip, size_patched, hsize0]
  generalize hG3 : (genRetblk G2 0).1 = G3
  have hsize3 : G3.size = G.size + 2 := by
    rw [← hG3]
    show G2.size + 1 = _
    rw [hsize2]
  have hown3 : ∀ i < G.size, G3.own i = (G0.flip p).own i := by
    intro i hi
    rw [← hG3, genRetblk, newBlock_own_of_lt G2 _ _ (by omega), ← hG2, own_flip, own_flip,
      own_patched]
  have hedge3 : ∀ i < G.size + 1, ∀ side, G3.edge i side =
      if i ∈ ts ∧ side = G0.own i then some G.size else G0.edge i side := by
    intro i hi side
    rw [← hG3, genRetblk, newBlock_edge_of_lt G2 _ _ (by omega), ← hG2, edge_flip, edge_patched]
  -- the list of the false exits is as it was
  have hthreads3 : Threads G3 (some p) fs := by
    refine hfs.threads.congr (fun i hi => hown3 i (hfs_lt i hi)) fun i hi => ?_
    have hexit := (hfs.mem i _).mp ⟨hi, rfl⟩
    rw [hedge3 i (Nat.lt_succ_of_lt (hfs_lt i hi)), if_neg, edge_turn]
    intro hts'
    have hexit' := ((hts.mem i _).mp hts').2
    rw [hexit.2] at hexit'
    cases hexit'
  have hdrop : backpatch G3.size G3 (some p) G2.size = some (patched G3 fs G2.size) := by
    refine backpatch_eq hthreads3 hfs.nodup ?_
    have hle := h0.length_le hfs
    omega
  refine ⟨patched G3 fs G2.size, ?_, ?_, ?_, ?_, ?_, ?_, ?_, ?_⟩
  · have hhead : (patched G3 fs G2.size).headOf p = F.head := by
      have hp := h.lt p h.self_mem
      rw [headOf_patched, ← hG3, genRetblk, newBlock_headOf_of_lt G2 _ _ (by omega), ← hG2,
        headOf_flip, headOf_patched, h0.headOf]
    have hret0 : genRetblk G snaplen = (G0, G.size) := by
      rw [← hG0]
      rfl
    have hret2 : genRetblk G2 0 = (G3, G2.size) := by
      rw [← hG3]
      rfl
    simp only [finishParse, hret0, haccept, Option.bind_eq_bind, Option.bind_some, hG2, hret2,
      hdrop, hhead]
    rfl
  · rw [size_patched, hsize3]
  · intro i hi
    rw [code_patched, ← hG3, genRetblk, newBlock_code_of_lt G2 _ _ (by omega), ← hG2, code_flip,
      code_patched, ← hG0, genRetblk, newBlock_code_of_lt G _ _ hi]
  · rw [code_patched, ← hG3, genRetblk, newBlock_code_of_lt G2 _ _ (by omega), ← hG2, code_flip,
      code_patched, ← hG0, genRetblk, newBlock_code]
    rfl
  · rw [code_patched, ← hG3, ← hsize2, genRetblk, newBlock_code]
    rfl
  · intro i hi side
    have hlt := h.lt i hi
    rw [edge_patched, hown3 i hlt, hedge3 i (Nat.lt_succ_of_lt hlt)]
    have htrue : i ∈ ts ∧ side = G0.own i ↔ F.succ i side = .exit true :=
      (hts.mem i side).trans (and_iff_right hi)
    have hfalse : i ∈ fs ∧ side = (G0.flip p).own i ↔ F.succ i side = .exit false :=
      (hfs.mem i side).trans (and_iff_right hi)
    simp only [htrue, hfalse]
    cases hsucc : F.succ i side with
    | node j => simpa [resolve] using h0.node i hi side j hsucc
    | exit e => cases e <;> simp [resolve, hsize2]
  · intro i hge hlt side
    rw [size_patched, hsize3] at hlt
    rw [edge_patched, if_neg fun hi => absurd (hfs_lt i hi.1) (Nat.not_lt.mpr hge)]
    obtain rfl | rfl : i = G.size ∨ i = G2.size := by omega
    · rw [hedge3 _ (Nat.lt_succ_self _),
        if_neg fun hi => absurd (hts_lt _ hi.1) (Nat.lt_irrefl _), ← hG0, genRetblk, newBlock_edge]
    · rw [← hG3, genRetblk, newBlock_edge]
  · rw [pieces_patched, ← hG3, genRetblk, newBlock_pieces, ← hG2, pieces_flip, pieces_patched,
      ← hG0, genRetblk, newBlock_pieces, List.append_assoc]
    rfl

end Finish

/-! ## The finished graph -/

/-- Every block returns a constant, or tests and has both its edges to blocks that
were allocated after it. -/
structure Sealed (G : Graph) : Prop where
  block : ∀ i < G.size,
    (∃ v, G.code i = ([], ⟨bpfRet ||| bpfK, v⟩) ∧ ∀ side, G.edge i side = none) ∨
      ∃ t : Test, G.code i = t.code ∧ ∀ side, ∃ j, G.edge i side = some j ∧ i < j ∧ j < G.size

theorem decode_ret : decodeOp (bpfRet ||| bpfK) = some .retK := by decide

/-- The last blocks return. -/
theorem execCode_ret (env : Env) (v : UInt32) (r : Regs) :
    execCode env ([], ⟨bpfRet ||| bpfK, v⟩) r = .halt (.ret v) := by
  simp only [execCode, runStmts, Stepped.bind_next, FilterStmt.branch, decode_ret]

/-- So does the graph at them. -/
theorem graphStep_ret {env : Env} {G : Graph} {i : ℕ} {v : UInt32} {r : Regs}
    (h : G.code i = ([], ⟨bpfRet ||| bpfK, v⟩)) : graphStep env G (i, r) = .halt (.ret v) := by
  simp only [graphStep, h, execCode_ret]

section Compile

variable {G H : Graph} {b : ℕ} {e : Expr} {F : Flow ℕ} {snaplen : UInt32}

/-- In the finished graph no edge is open. -/
theorem Finished.sealed (h : Finished snaplen G H F) (hgen : Generates Graph.empty G b e F) :
    Sealed H := by
  have hnodes : ∀ i, i ∈ F.nodes ↔ i < G.size := by
    intro i
    rw [hgen.nodes, Finset.mem_Ico]
    exact and_iff_right (Nat.zero_le i)
  refine ⟨fun i hi => ?_⟩
  by_cases hlt : i < G.size
  · right
    have hmem := (hnodes i).mpr hlt
    obtain ⟨t, ht⟩ := hgen.test i hmem
    refine ⟨t, (h.code i hlt).trans ht, fun side => ⟨_, h.edge i hmem side, ?_⟩⟩
    rw [h.size]
    cases hsucc : F.succ i side with
    | node j =>
        have hup := hgen.up i hmem side j hsucc
        have hj := (hnodes j).mp (F.closed i hmem side j hsucc)
        simp only [resolve]
        omega
    | exit d =>
        cases d <;> simp only [resolve] <;> omega
  · left
    have hsize := h.size
    have hlast := h.last i (Nat.le_of_not_lt hlt) hi
    obtain rfl | rfl : i = G.size ∨ i = G.size + 1 := by omega
    · exact ⟨snaplen, h.accept, hlast⟩
    · exact ⟨0, h.drop, hlast⟩

/-- The finished graph has the verdict of the fragment. -/
theorem Finished.yields (h : Finished snaplen G H F) {env : Env} {r : Regs}
    {x : Leaving Regs Result}
    (hx : (F.machine fun i => execCode env (G.code i)).Yields (F.head, r) x)
    (hlt : ∀ i ∈ F.nodes, i < G.size) :
    (graphStep env H).Yields (F.head, r) (verdict snaplen x) := by
  refine Machine.Yields.simulated (R := fun a b => a = b ∧ a.1 ∈ F.nodes) ?_ ?_ hx
    ⟨rfl, F.head_mem⟩
  · rintro c c' _ ⟨rfl, hc⟩ hstep
    obtain ⟨side, hexec, hsucc⟩ := Flow.machine_eq_next.mp hstep
    refine ⟨c', Machine.Leads.single ?_, rfl, F.closed _ hc side _ hsucc⟩
    simp only [graphStep, h.code _ (hlt _ hc), hexec, h.edge _ hc, hsucc, resolve]
  · rintro c _ ⟨rfl, hc⟩ hhalt
    rcases Flow.machine_eq_halt hhalt with ⟨y, hexec, rfl⟩ | ⟨side, r', d, hexec, hsucc, rfl⟩
    · refine Machine.Yields.halt ?_
      simp only [graphStep, h.code _ (hlt _ hc), hexec, verdict]
    · have hnext : graphStep env H c = .next (resolve G.size (.exit d), r') := by
        simp only [graphStep, h.code _ (hlt _ hc), hexec, h.edge _ hc, hsucc]
      refine Machine.Yields.next hnext (Machine.Yields.halt ?_)
      cases d with
      | true => exact graphStep_ret h.accept
      | false => exact graphStep_ret h.drop

/-- The two blocks that return come to those of the expression. -/
theorem Finished.sum_room (h : Finished snaplen G H F) (hgen : Generates Graph.empty G b e F) :
    ∑ i ∈ Finset.range H.size, ((H.code i).1.length + 3) = e.bound + 6 := by
  have hnodes : Finset.range G.size = F.nodes := by
    rw [hgen.nodes, Finset.range_eq_Ico]
    rfl
  rw [h.size, Finset.sum_range_succ, Finset.sum_range_succ, h.accept, h.drop, ← hgen.bound,
    ← hnodes]
  have hsum : ∑ i ∈ Finset.range G.size, ((H.code i).1.length + 3) =
      ∑ i ∈ Finset.range G.size, ((G.code i).1.length + 3) :=
    Finset.sum_congr rfl fun i hi => by rw [h.code i (Finset.mem_range.mp hi)]
  rw [hsum]
  rfl

/-- The bound of the instructions of a filter. -/
def filterBound : Option Expr → ℕ
  | none => 3
  | some e => e.bound + 6

/-- What a filter is built from, with the blocks that return. -/
def filterPieces : Option Expr → List Piece
  | none => [.block]
  | some e => e.pieces ++ [.block, .block]

/-- Every block is allocated, so a program has three instructions for each piece at
most. -/
theorem Expr.bound_le (e : Expr) : e.bound ≤ 3 * e.pieces.length := by
  induction e with
  | test t =>
      have hroom := t.s0.room
      show t.s0.stmts.length + 3 ≤ _
      rw [Expr.pieces, List.length_append, List.length_singleton]
      omega
  | and a b iha ihb | or a b iha ihb =>
      rw [Expr.bound, Expr.pieces, List.length_append]
      omega
  | not a ih => exact ih

/-- A filter for which there is memory has few instructions. -/
theorem filterBound_lt {build : Build} {e : Option Expr} (h : Fits build (filterPieces e)) :
    filterBound e < 2 ^ 31 := by
  have hle := length_le_of_fits h
  cases e with
  | none => exact Nat.lt_of_le_of_lt (le_refl 3) (by decide)
  | some e =>
      have hbound := e.bound_le
      rw [filterPieces, List.length_append] at hle
      rw [filterBound]
      simp only [List.length_cons, List.length_nil] at hle
      omega

/-- The parser's graph of every expression is complete, and it has the expression's
meaning for every packet and all contents of the registers. -/
theorem parseGraph_yields (snaplen : UInt32) (e : Option Expr) :
    ∃ H root, parseGraph snaplen e = some (H, root) ∧ Sealed H ∧ root < H.size ∧
      H.pieces = filterPieces e ∧
      ∑ i ∈ Finset.range H.size, ((H.code i).1.length + 3) = filterBound e ∧
      ∀ env r, (graphStep env H).Yields (root, r) (filterResult snaplen env r e) := by
  cases e with
  | none =>
      have hcode : (genRetblk Graph.empty snaplen).1.code 0 = ([], ⟨bpfRet ||| bpfK, snaplen⟩) :=
        newBlock_code _ _ _
      refine ⟨(genRetblk Graph.empty snaplen).1, 0, rfl, ⟨fun i hi => .inl ⟨snaplen, ?_⟩⟩,
        Nat.zero_lt_one, rfl, ?_, fun env r =>
        Machine.Yields.halt (graphStep_ret hcode)⟩
      · obtain rfl : i = 0 := Nat.lt_one_iff.mp hi
        exact ⟨hcode, newBlock_edge Graph.empty _ _⟩
      · show ∑ i ∈ Finset.range 1, _ = _
        rw [Finset.sum_range_one, hcode]
        rfl
  | some e =>
      obtain ⟨G, b, F, hgen, hG⟩ := gen_generates e Graph.empty
      obtain ⟨H, hfinish, hH⟩ := finishParse_spec snaplen hG.represents
      refine ⟨H, F.head, ?_, hH.sealed hG, ?_, hH.pieces.trans ?_, hH.sum_room hG,
        fun env r => ?_⟩
      · simp only [parseGraph, hgen, Option.bind_eq_bind, Option.bind_some, hfinish]
      · have hhead := hG.represents.lt _ F.head_mem
        rw [hH.size]
        omega
      · rw [hG.pieces]
        rfl
      · exact hH.yields (hG.decides env r) hG.represents.lt

end Compile

end MobiPerf.Capture
