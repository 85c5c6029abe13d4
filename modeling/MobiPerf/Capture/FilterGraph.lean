import Mathlib.Data.Finset.Card
import Mathlib.Data.List.Nodup
import MobiPerf.Capture.FilterMemory
import MobiPerf.Lib.Flow

/-!
# Capture.FilterGraph — backpatching a filter expression

The actions of the parser build a graph of blocks, each with statements and a
conditional jump. The sides of a block that lead out of the expression are not
resolved yet: they are linked into two lists, one through the true exits and one
through the false ones, by the very fields `jt` and `jf` that will hold the
targets, and the flag `sense` of a block tells which of the two holds its link.
The block an expression stands for begins both lists: with its own `sense` the
true exits, with `sense` turned the false ones.

`Represents` relates such a block to a fragment of a flow graph (`Lib.Flow`), and
`gen_and`, `gen_or` and `gen_not` are short-circuit evaluation of fragments.

The blocks are numbered as they are allocated. The length computations for link
headers of variable length, which `finish_parse` puts in front, are left out, and
so are jumps between the statements of one block, which only they use.
-/

namespace MobiPerf.Capture

open Lib

/-- `struct block`; `jt` and `jf` are its edges. -/
structure Block where
  stmts : List FilterStmt
  s : FilterStmt
  sense : Bool
  jt : Option ℕ
  jf : Option ℕ
  head : ℕ
deriving Repr

/-- The edge of a side: `true` is `JT`. -/
def Block.edge (b : Block) (side : Bool) : Option ℕ := if side then b.jt else b.jf

def Block.setEdge (b : Block) (side : Bool) (target : Option ℕ) : Block :=
  if side then { b with jt := target } else { b with jf := target }

/-- The blocks allocated so far, and all that `newchunk` has been asked for. -/
structure Graph where
  size : ℕ
  block : ℕ → Block
  pieces : List Piece

namespace Graph

variable (G : Graph) (i : ℕ)

def modify (f : Block → Block) : Graph :=
  { G with block := Function.update G.block i (f (G.block i)) }

def edge (side : Bool) : Option ℕ := (G.block i).edge side

def setEdge (side : Bool) (target : Option ℕ) : Graph := G.modify i (·.setEdge side target)

/-- `b->sense = !b->sense`. -/
def flip : Graph := G.modify i fun b => { b with sense := !b.sense }

def headOf : ℕ := (G.block i).head

def setHead (head : ℕ) : Graph := G.modify i fun b => { b with head := head }

/-- The side that holds the link of the list a block is in: `JT` if its `sense` is
not set. -/
def own : Bool := !(G.block i).sense

/-- The statements and the branch. -/
def code : List FilterStmt × FilterStmt := ((G.block i).stmts, (G.block i).s)

end Graph

/-- `new_block`, and the statements and the branch that its callers set; the
statements have been allocated before. Whether `newchunk` meets the requests is
asked at the end (`Fits`): when it does not, nothing of the graph is left. -/
def newBlock (G : Graph) (s0 : Slist) (s : FilterStmt) : Graph × ℕ :=
  ({ size := G.size + 1
     block := Function.update G.block G.size
       { stmts := s0.stmts, s := s, sense := false, jt := none, jf := none, head := G.size }
     pieces := G.pieces ++ (s0.pieces ++ [.block]) },
    G.size)

def genRetblk (G : Graph) (v : UInt32) : Graph × ℕ :=
  newBlock G (newStmts [] plain_nil) ⟨bpfRet ||| bpfK, v⟩

/-- The loop of `backpatch`, for a number of passes. -/
def backpatch : ℕ → Graph → Option ℕ → ℕ → Option Graph
  | _, G, none, _ => some G
  | 0, _, some _, _ => none
  | fuel + 1, G, some list, target =>
    backpatch fuel (G.setEdge list (G.own list) (some target)) (G.edge list (G.own list)) target

/-- `merge`: the end of the list of `b0` is found and `b1` put there. -/
def merge : ℕ → Graph → ℕ → ℕ → Option Graph
  | 0, _, _, _ => none
  | fuel + 1, G, b0, b1 =>
    match G.edge b0 (G.own b0) with
    | none => some (G.setEdge b0 (G.own b0) (some b1))
    | some next => merge fuel G next b1

/-- A list has no more blocks than the graph. -/
def genAnd (G : Graph) (b0 b1 : ℕ) : Option Graph := do
  let G ← backpatch G.size G (some b0) (G.headOf b1)
  let G := G.flip b0
  let G := G.flip b1
  let G ← merge G.size G b1 b0
  let G := G.flip b1
  return G.setHead b1 (G.headOf b0)

def genOr (G : Graph) (b0 b1 : ℕ) : Option Graph := do
  let G := G.flip b0
  let G ← backpatch G.size G (some b0) (G.headOf b1)
  let G := G.flip b0
  let G ← merge G.size G b1 b0
  return G.setHead b1 (G.headOf b0)

def genNot (G : Graph) (b : ℕ) : Graph := G.flip b

/-- `finish_parse`; the result is `root`. -/
def finishParse (snaplen : UInt32) (G : Graph) (p : ℕ) : Option (Graph × ℕ) := do
  let (G, accept) := genRetblk G snaplen
  let G ← backpatch G.size G (some p) accept
  let G := G.flip p
  let (G, drop) := genRetblk G 0
  let G ← backpatch G.size G (some p) drop
  return (G, G.headOf p)

/-! ## Lists of blocks -/

section Views

variable (G : Graph) (i j : ℕ)

/-- A block that is changed, and the others. -/
theorem block_modify (f : Block → Block) :
    (G.modify i f).block j = if j = i then f (G.block j) else G.block j := by
  show Function.update G.block i (f (G.block i)) j = _
  by_cases h : j = i
  · rw [h, Function.update_self, if_pos rfl]
  · rw [Function.update_of_ne h, if_neg h]

@[simp] theorem own_setEdge (side : Bool) (t : Option ℕ) :
    (G.setEdge i side t).own j = G.own j := by
  simp only [Graph.own, Graph.setEdge, block_modify]
  cases side <;> split <;> rfl

theorem edge_setEdge (side side' : Bool) (t : Option ℕ) :
    (G.setEdge i side t).edge j side' = if j = i ∧ side' = side then t else G.edge j side' := by
  simp only [Graph.edge, Graph.setEdge, block_modify]
  by_cases h : j = i
  · cases side <;> cases side' <;> simp [h, Block.setEdge, Block.edge]
  · simp [h]

@[simp] theorem headOf_setEdge (side : Bool) (t : Option ℕ) :
    (G.setEdge i side t).headOf j = G.headOf j := by
  simp only [Graph.headOf, Graph.setEdge, block_modify]
  cases side <;> split <;> rfl

@[simp] theorem code_setEdge (side : Bool) (t : Option ℕ) :
    (G.setEdge i side t).code j = G.code j := by
  simp only [Graph.code, Graph.setEdge, block_modify]
  cases side <;> split <;> rfl

/-- The link changes its side in the block whose sense is turned. -/
theorem own_flip : (G.flip i).own j = if j = i then !G.own j else G.own j := by
  simp only [Graph.own, Graph.flip, block_modify]
  split <;> rfl

@[simp] theorem edge_flip (side : Bool) : (G.flip i).edge j side = G.edge j side := by
  simp only [Graph.edge, Graph.flip, block_modify]
  split <;> rfl

@[simp] theorem headOf_flip : (G.flip i).headOf j = G.headOf j := by
  simp only [Graph.headOf, Graph.flip, block_modify]
  split <;> rfl

@[simp] theorem code_flip : (G.flip i).code j = G.code j := by
  simp only [Graph.code, Graph.flip, block_modify]
  split <;> rfl

@[simp] theorem size_flip : (G.flip i).size = G.size := rfl

@[simp] theorem pieces_flip : (G.flip i).pieces = G.pieces := rfl

@[simp] theorem own_setHead (head : ℕ) : (G.setHead i head).own j = G.own j := by
  simp only [Graph.own, Graph.setHead, block_modify]
  split <;> rfl

@[simp] theorem edge_setHead (head : ℕ) (side : Bool) :
    (G.setHead i head).edge j side = G.edge j side := by
  simp only [Graph.edge, Graph.setHead, block_modify]
  split <;> rfl

@[simp] theorem headOf_setHead (head : ℕ) : (G.setHead i head).headOf i = head := by
  simp only [Graph.headOf, Graph.setHead, block_modify, if_true]

@[simp] theorem code_setHead (head : ℕ) : (G.setHead i head).code j = G.code j := by
  simp only [Graph.code, Graph.setHead, block_modify]
  split <;> rfl

end Views

/-- The list that begins at `p` has the blocks `is`. -/
def Threads (G : Graph) : Option ℕ → List ℕ → Prop
  | p, [] => p = none
  | p, i :: is => p = some i ∧ Threads G (G.edge i (G.own i)) is

/-- A list depends on the links of its blocks. -/
theorem Threads.congr {G G' : Graph} {p : Option ℕ} {is : List ℕ} (h : Threads G p is)
    (hown : ∀ i ∈ is, G'.own i = G.own i)
    (hedge : ∀ i ∈ is, G'.edge i (G.own i) = G.edge i (G.own i)) : Threads G' p is := by
  induction is generalizing p with
  | nil => exact h
  | cons i is ih =>
      refine ⟨h.1, ?_⟩
      rw [hown i List.mem_cons_self, hedge i List.mem_cons_self]
      exact ih h.2 (fun j hj => hown j (List.mem_cons_of_mem _ hj))
        fun j hj => hedge j (List.mem_cons_of_mem _ hj)

/-- The links of the blocks `is` are set to a target. -/
def patched (G : Graph) (is : List ℕ) (target : ℕ) : Graph :=
  is.foldl (fun G i => G.setEdge i (G.own i) (some target)) G

section Patched

variable (G : Graph) (is : List ℕ) (target j : ℕ)

@[simp] theorem own_patched : (patched G is target).own j = G.own j := by
  induction is generalizing G with
  | nil => rfl
  | cons i is ih => exact (ih _).trans (own_setEdge G i j _ _)

/-- Patching sets the link of every block of the list. -/
theorem edge_patched (side : Bool) : (patched G is target).edge j side =
    if j ∈ is ∧ side = G.own j then some target else G.edge j side := by
  induction is generalizing G with
  | nil => simp [patched]
  | cons i is ih =>
      show (patched (G.setEdge i (G.own i) (some target)) is target).edge j side = _
      simp only [ih, own_setEdge, edge_setEdge, List.mem_cons]
      by_cases hj : j = i
      · subst hj
        by_cases hside : side = G.own j <;> simp [hside]
      · simp [hj]

@[simp] theorem headOf_patched : (patched G is target).headOf j = G.headOf j := by
  induction is generalizing G with
  | nil => rfl
  | cons i is ih => exact (ih _).trans (headOf_setEdge G i j _ _)

@[simp] theorem code_patched : (patched G is target).code j = G.code j := by
  induction is generalizing G with
  | nil => rfl
  | cons i is ih => exact (ih _).trans (code_setEdge G i j _ _)

@[simp] theorem size_patched : (patched G is target).size = G.size := by
  induction is generalizing G with
  | nil => rfl
  | cons i is ih => exact ih _

@[simp] theorem pieces_patched : (patched G is target).pieces = G.pieces := by
  induction is generalizing G with
  | nil => rfl
  | cons i is ih => exact ih _

end Patched

/-- `backpatch` reaches the end of the list, and sets its links. -/
theorem backpatch_eq {fuel : ℕ} {G : Graph} {p : Option ℕ} {is : List ℕ} {target : ℕ}
    (h : Threads G p is) (hnodup : is.Nodup) (hfuel : is.length ≤ fuel) :
    backpatch fuel G p target = some (patched G is target) := by
  induction is generalizing fuel G p with
  | nil =>
      cases h
      cases fuel <;> rfl
  | cons i is ih =>
      obtain ⟨rfl, hrest⟩ := h
      obtain ⟨hi, hnodup⟩ := List.nodup_cons.mp hnodup
      cases fuel with
      | zero => simp at hfuel
      | succ fuel =>
          refine ih (hrest.congr (fun j _ => own_setEdge G i j _ _) fun j hj => ?_) hnodup
            (Nat.le_of_succ_le_succ hfuel)
          rw [edge_setEdge, if_neg]
          rintro ⟨rfl, -⟩
          exact hi hj

/-- `merge` reaches the last block of the list. -/
theorem merge_eq {fuel : ℕ} {G : Graph} {i : ℕ} (b1 : ℕ) {is : List ℕ}
    (h : Threads G (some i) (i :: is)) (hfuel : is.length < fuel) :
    ∃ l, (i :: is).getLast? = some l ∧
      merge fuel G i b1 = some (G.setEdge l (G.own l) (some b1)) := by
  induction is generalizing fuel i with
  | nil =>
      obtain ⟨fuel, rfl⟩ := Nat.exists_eq_succ_of_ne_zero (Nat.ne_of_gt hfuel)
      have hend : G.edge i (G.own i) = none := h.2
      exact ⟨i, rfl, by simp only [merge, hend]⟩
  | cons j is ih =>
      obtain ⟨fuel, rfl⟩ := Nat.exists_eq_succ_of_ne_zero (Nat.ne_of_gt (Nat.zero_lt_of_lt hfuel))
      have hnext : G.edge i (G.own i) = some j := h.2.1
      have hlt : is.length < fuel := Nat.lt_of_succ_lt_succ hfuel
      obtain ⟨l, hl, hmerge⟩ := ih ⟨rfl, h.2.2⟩ hlt
      refine ⟨l, by rw [List.getLast?_cons_cons]; exact hl, ?_⟩
      simp only [merge, hnext, hmerge]

/-- A list whose last link goes on with another one. -/
theorem Threads.append {G H : Graph} {p : Option ℕ} {is js : List ℕ} {b l : ℕ}
    (h : Threads G p is) (hnodup : is.Nodup) (hlast : is.getLast? = some l)
    (hown : ∀ i ∈ is, H.own i = G.own i)
    (hedge : ∀ i ∈ is, H.edge i (G.own i) = if i = l then some b else G.edge i (G.own i))
    (hb : Threads H (some b) js) : Threads H p (is ++ js) := by
  induction is generalizing p with
  | nil => cases hlast
  | cons i is ih =>
      obtain ⟨hi, hnodup⟩ := List.nodup_cons.mp hnodup
      refine ⟨h.1, ?_⟩
      show Threads H (H.edge i (H.own i)) (is ++ js)
      rw [hown i List.mem_cons_self, hedge i List.mem_cons_self]
      cases is with
      | nil =>
          have hil : i = l := Option.some.inj hlast
          rw [if_pos hil]
          exact hb
      | cons j is =>
          rw [List.getLast?_cons_cons] at hlast
          rw [if_neg]
          · exact ih h.2 hnodup hlast (fun k hk => hown k (List.mem_cons_of_mem _ hk))
              fun k hk => hedge k (List.mem_cons_of_mem _ hk)
          · rintro rfl
            exact hi (List.mem_of_getLast? hlast)

/-! ## Fragments -/

/-- The graph in which the block begins the list of the exits `e`. -/
def Graph.turn (G : Graph) (b : ℕ) (e : Bool) : Graph := if e then G else G.flip b

section Turn

variable (G : Graph) (b i : ℕ) (e : Bool)

/-- The block that is turned has its link on the other side. -/
theorem own_turn : (G.turn b e).own i = if i = b ∧ e = false then !G.own i else G.own i := by
  cases e <;> simp [Graph.turn, own_flip]

@[simp] theorem edge_turn (side : Bool) : (G.turn b e).edge i side = G.edge i side := by
  cases e <;> simp [Graph.turn]

theorem own_turn_of_ne {b i : ℕ} (h : i ≠ b) : (G.turn b e).own i = G.own i := by
  rw [own_turn, if_neg fun hb => h hb.1]

end Turn

/-- The blocks `is`, in the order of their list, are those with a side that leads to
the exit `e` of the fragment, and that side holds the link. -/
structure Exits (G : Graph) (b : ℕ) (F : Flow ℕ) (e : Bool) (is : List ℕ) : Prop where
  threads : Threads (G.turn b e) (some b) is
  nodup : is.Nodup
  mem : ∀ i side, i ∈ is ∧ side = (G.turn b e).own i ↔ i ∈ F.nodes ∧ F.succ i side = .exit e

/-- The block `b` stands for a fragment. -/
structure Represents (G : Graph) (b : ℕ) (F : Flow ℕ) : Prop where
  headOf : G.headOf b = F.head
  node : ∀ i ∈ F.nodes, ∀ side j, F.succ i side = .node j → G.edge i side = some j
  lt : ∀ i ∈ F.nodes, i < G.size
  exits : ∀ e, ∃ is, Exits G b F e is

section Represents

variable {G H : Graph} {b b0 b1 : ℕ} {F F0 F1 : Flow ℕ} {e : Bool} {is : List ℕ}

/-- The blocks of the list belong to the fragment. -/
theorem Exits.mem_nodes (h : Exits G b F e is) {i : ℕ} (hi : i ∈ is) : i ∈ F.nodes :=
  ((h.mem i _).mp ⟨hi, rfl⟩).1

/-- The list of a fragment begins at the block that stands for it. -/
theorem Exits.eq_cons (h : Exits G b F e is) : ∃ is', is = b :: is' := by
  cases is with
  | nil => exact absurd h.threads (by simp [Threads])
  | cons i is =>
      cases h.threads.1
      exact ⟨is, rfl⟩

/-- So this block belongs to it. -/
theorem Exits.self_mem (h : Exits G b F e is) : b ∈ F.nodes := by
  obtain ⟨is', rfl⟩ := h.eq_cons
  exact h.mem_nodes List.mem_cons_self

/-- The block that stands for a fragment belongs to it. -/
theorem Represents.self_mem (h : Represents G b F) : b ∈ F.nodes := by
  obtain ⟨is, his⟩ := h.exits true
  exact his.self_mem

/-- The links of a fragment are the passes a loop over them needs. -/
theorem Represents.length_le (h : Represents G b F) (his : Exits G b F e is) :
    is.length ≤ G.size := by
  have hsub : is.toFinset ⊆ Finset.range G.size := by
    intro i hi
    exact Finset.mem_range.mpr (h.lt i (his.mem_nodes (List.mem_toFinset.mp hi)))
  have hcard := Finset.card_le_card hsub
  rwa [List.toFinset_card_of_nodup his.nodup, Finset.card_range] at hcard

/-- The list of another graph, where the blocks of the list have the same links. -/
theorem Exits.congr (h : Exits G b F e is) (hown : ∀ i ∈ F.nodes, H.own i = G.own i)
    (hedge : ∀ i ∈ F.nodes, ∀ side, F.succ i side = .exit e → H.edge i side = G.edge i side) :
    Exits H b F e is := by
  have hturn : ∀ i ∈ F.nodes, (H.turn b e).own i = (G.turn b e).own i := by
    intro i hi
    rw [own_turn, own_turn, hown i hi]
  refine ⟨h.threads.congr (fun i hi => hturn i (h.mem_nodes hi)) fun i hi => ?_, h.nodup, ?_⟩
  · rw [edge_turn, edge_turn]
    have hexit := (h.mem i _).mp ⟨hi, rfl⟩
    exact hedge i hexit.1 _ hexit.2
  · intro i side
    rw [← h.mem]
    constructor
    · rintro ⟨hi, rfl⟩
      exact ⟨hi, hturn i (h.mem_nodes hi)⟩
    · rintro ⟨hi, rfl⟩
      exact ⟨hi, (hturn i (h.mem_nodes hi)).symm⟩

/-- A fragment is represented as long as its blocks are the same. -/
theorem Represents.congr (h : Represents G b F) (hsize : G.size ≤ H.size)
    (hblock : ∀ i ∈ F.nodes, H.block i = G.block i) : Represents H b F := by
  refine ⟨?_, ?_, fun i hi => Nat.lt_of_lt_of_le (h.lt i hi) hsize, ?_⟩
  · rw [Graph.headOf, hblock b h.self_mem]
    exact h.headOf
  · intro i hi side j hj
    rw [Graph.edge, hblock i hi]
    exact h.node i hi side j hj
  · intro e
    obtain ⟨is, his⟩ := h.exits e
    refine ⟨is, his.congr (fun i hi => ?_) fun i hi side _ => ?_⟩
    · rw [Graph.own, Graph.own, hblock i hi]
    · rw [Graph.edge, Graph.edge, hblock i hi]

/-- `gen_not`. -/
theorem Represents.flip (h : Represents G b F) : Represents (genNot G b) b F.swap := by
  refine ⟨?_, ?_, h.lt, ?_⟩
  · rw [genNot, headOf_flip]
    exact h.headOf
  · intro i hi side j hj
    rw [genNot, edge_flip]
    exact h.node i hi side j (Target.swap_eq_node.mp hj)
  · intro e
    obtain ⟨is, his⟩ := h.exits (!e)
    have hown : ∀ i, ((genNot G b).turn b e).own i = (G.turn b (!e)).own i := by
      intro i
      rw [own_turn, own_turn, genNot, own_flip]
      by_cases hb : i = b <;> cases e <;> simp [hb]
    refine ⟨is, his.threads.congr (fun i _ => hown i) fun i _ => ?_, his.nodup, ?_⟩
    · rw [edge_turn, edge_turn, genNot, edge_flip]
    · intro i side
      rw [hown, his.mem]
      exact and_congr_right fun _ => Target.swap_eq_exit.symm

end Represents

/-! ## Putting fragments in sequence -/

/-- The graph `H` in which the exit `e` of one fragment of `G` leads to another: the
links of that exit are patched, and the last link of the other exit of the second
fragment goes on with the list of the first. -/
structure Spliced (G H : Graph) (e : Bool) (b0 b1 : ℕ) (F0 F1 : Flow ℕ) (is : List ℕ) (l : ℕ) :
    Prop where
  fst : Represents G b0 F0
  snd : Represents G b1 F1
  disj : Disjoint F0.nodes F1.nodes
  list : Exits G b1 F1 (!e) is
  last : is.getLast? = some l
  size : G.size ≤ H.size
  own : ∀ i, H.own i = (G.turn b0 (!e)).own i
  edge : ∀ i side, H.edge i side =
    if i ∈ F0.nodes ∧ F0.succ i side = .exit e then some F1.head
    else if i = l ∧ side = (G.turn b1 (!e)).own l then some b0 else G.edge i side
  headOf : H.headOf b1 = G.headOf b0

namespace Spliced

variable {G H : Graph} {e : Bool} {b0 b1 : ℕ} {F0 F1 : Flow ℕ} {is : List ℕ} {l i : ℕ}

/-- The fragments have no block in common. -/
theorem not_mem_fst (h : Spliced G H e b0 b1 F0 F1 is l) (hi : i ∈ F1.nodes) : i ∉ F0.nodes :=
  Finset.disjoint_right.mp h.disj hi

/-- The second fragment still has its exit. -/
theorem last_exit (h : Spliced G H e b0 b1 F0 F1 is l) :
    l ∈ F1.nodes ∧ F1.succ l ((G.turn b1 (!e)).own l) = .exit (!e) :=
  (h.list.mem l _).mp ⟨List.mem_of_getLast? h.last, rfl⟩

/-- What does not leave the first fragment by the exit `e` keeps its edge. -/
theorem edge_fst (h : Spliced G H e b0 b1 F0 F1 is l) (hi : i ∈ F0.nodes) {side : Bool}
    (hsucc : F0.succ i side ≠ .exit e) : H.edge i side = G.edge i side := by
  rw [h.edge, if_neg fun hx => hsucc hx.2, if_neg]
  rintro ⟨rfl, -⟩
  exact h.not_mem_fst h.last_exit.1 hi

/-- The second fragment keeps its edges, but for the last link. -/
theorem edge_snd (h : Spliced G H e b0 b1 F0 F1 is l) (hi : i ∈ F1.nodes) {side : Bool}
    (hsucc : F1.succ i side ≠ .exit (!e)) : H.edge i side = G.edge i side := by
  rw [h.edge, if_neg fun hx => h.not_mem_fst hi hx.1, if_neg]
  rintro ⟨rfl, rfl⟩
  exact hsucc h.last_exit.2

/-- A block of the first fragment has its link where it had it. -/
theorem own_fst (h : Spliced G H e b0 b1 F0 F1 is l) (hi : i ∈ F0.nodes) (b : Bool) :
    (H.turn b1 b).own i = (G.turn b0 (!e)).own i := by
  rw [own_turn_of_ne H b, h.own]
  rintro rfl
  exact h.not_mem_fst h.snd.self_mem hi

/-- So has a block of the second. -/
theorem own_snd (h : Spliced G H e b0 b1 F0 F1 is l) (hi : i ∈ F1.nodes) (b : Bool) :
    (H.turn b1 b).own i = (G.turn b1 b).own i := by
  have hne : i ≠ b0 := by
    rintro rfl
    exact h.not_mem_fst hi h.fst.self_mem
  rw [own_turn, own_turn, h.own, own_turn_of_ne G _ hne]

/-- The first fragment is left by the other exit only. -/
theorem succ_fst (hi : i ∈ F0.nodes) {side b : Bool} :
    (F0.seq e F1).succ i side = .exit b ↔ F0.succ i side = .exit b ∧ b = !e := by
  simp only [Flow.seq, if_pos hi]
  exact Target.redirect_eq_exit

/-- The second fragment is left as before. -/
theorem succ_snd (h : Spliced G H e b0 b1 F0 F1 is l) (hi : i ∈ F1.nodes) {side : Bool} :
    (F0.seq e F1).succ i side = F1.succ i side := by
  simp only [Flow.seq, if_neg (h.not_mem_fst hi)]

/-- Within the sequence the graph has the edges of the sequence. -/
theorem node (h : Spliced G H e b0 b1 F0 F1 is l) (hi : i ∈ (F0.seq e F1).nodes) {side : Bool}
    {j : ℕ} (hj : (F0.seq e F1).succ i side = .node j) : H.edge i side = some j := by
  by_cases hi0 : i ∈ F0.nodes
  · simp only [Flow.seq, if_pos hi0] at hj
    rcases Target.redirect_eq_node.mp hj with hnode | ⟨hexit, rfl⟩
    · rw [h.edge_fst hi0 (by rw [hnode]; exact fun hx => nomatch hx)]
      exact h.fst.node i hi0 side j hnode
    · rw [h.edge, if_pos ⟨hi0, hexit⟩]
  · have hi1 : i ∈ F1.nodes := (Finset.mem_union.mp hi).resolve_left hi0
    rw [h.succ_snd hi1] at hj
    rw [h.edge_snd hi1 (by rw [hj]; exact fun hx => nomatch hx)]
    exact h.snd.node i hi1 side j hj

/-- The list of the exit `e` is that of the second fragment. -/
theorem exits_same (h : Spliced G H e b0 b1 F0 F1 is l) {js : List ℕ} (hjs : Exits G b1 F1 e js) :
    Exits H b1 (F0.seq e F1) e js := by
  refine ⟨hjs.threads.congr (fun i hi => h.own_snd (hjs.mem_nodes hi) e) ?_, hjs.nodup, ?_⟩
  · intro i hi
    have hexit := (hjs.mem i _).mp ⟨hi, rfl⟩
    rw [edge_turn, edge_turn]
    refine h.edge_snd hexit.1 ?_
    rw [hexit.2]
    cases e <;> exact fun hx => nomatch hx
  · intro i side
    constructor
    · rintro ⟨hi, rfl⟩
      have hexit := (hjs.mem i _).mp ⟨hi, rfl⟩
      rw [h.own_snd hexit.1, h.succ_snd hexit.1]
      exact ⟨Finset.mem_union_right _ hexit.1, hexit.2⟩
    · rintro ⟨hi, hexit⟩
      by_cases hi0 : i ∈ F0.nodes
      · have hcontra := ((succ_fst hi0).mp hexit).2
        cases e <;> cases hcontra
      · have hi1 : i ∈ F1.nodes := (Finset.mem_union.mp hi).resolve_left hi0
        rw [h.succ_snd hi1] at hexit
        rw [h.own_snd hi1]
        exact (hjs.mem i side).mpr ⟨hi1, hexit⟩

/-- The list of the other exit is that of the second fragment, and behind it that
of the first. -/
theorem exits_other (h : Spliced G H e b0 b1 F0 F1 is l) {js : List ℕ}
    (hjs : Exits G b0 F0 (!e) js) : Exits H b1 (F0.seq e F1) (!e) (is ++ js) := by
  have hdisj : ∀ j ∈ js, j ∉ is := fun j hj hj' =>
    h.not_mem_fst (h.list.mem_nodes hj') (hjs.mem_nodes hj)
  refine ⟨?_, ?_, ?_⟩
  · -- the list of the second part comes first, and its last block is linked to the first part's
    refine h.list.threads.append h.list.nodup h.last
      (fun i hi => h.own_snd (h.list.mem_nodes hi) (!e)) ?_ (b := b0) ?_
    · intro i hi
      rw [edge_turn, edge_turn, h.edge, if_neg fun hx => h.not_mem_fst (h.list.mem_nodes hi) hx.1]
      -- the last block of the list is the one whose edge `merge` has set
      by_cases hil : i = l
      · rw [hil, if_pos ⟨rfl, rfl⟩, if_pos rfl]
      · rw [if_neg fun hx => hil hx.1, if_neg hil]
    · refine hjs.threads.congr (fun i hi => h.own_fst (hjs.mem_nodes hi) (!e)) fun i hi => ?_
      have hexit := (hjs.mem i _).mp ⟨hi, rfl⟩
      rw [edge_turn, edge_turn]
      refine h.edge_fst hexit.1 ?_
      rw [hexit.2]
      cases e <;> exact fun hx => nomatch hx
  · refine List.nodup_append.mpr ⟨h.list.nodup, hjs.nodup, ?_⟩
    -- the two parts have no block in common
    rintro a ha _ hb rfl
    exact hdisj a hb ha
  · intro i side
    rw [List.mem_append]
    constructor
    · rintro ⟨hi | hi, rfl⟩
      · have hexit := (h.list.mem i _).mp ⟨hi, rfl⟩
        rw [h.own_snd hexit.1, h.succ_snd hexit.1]
        exact ⟨Finset.mem_union_right _ hexit.1, hexit.2⟩
      · have hexit := (hjs.mem i _).mp ⟨hi, rfl⟩
        rw [h.own_fst hexit.1, succ_fst hexit.1]
        exact ⟨Finset.mem_union_left _ hexit.1, hexit.2, rfl⟩
    · rintro ⟨hi, hexit⟩
      by_cases hi0 : i ∈ F0.nodes
      · have hmem := (hjs.mem i side).mpr ⟨hi0, ((succ_fst hi0).mp hexit).1⟩
        exact ⟨.inr hmem.1, hmem.2.trans (h.own_fst hi0 _).symm⟩
      · have hi1 : i ∈ F1.nodes := (Finset.mem_union.mp hi).resolve_left hi0
        rw [h.succ_snd hi1] at hexit
        have hmem := (h.list.mem i side).mpr ⟨hi1, hexit⟩
        exact ⟨.inl hmem.1, hmem.2.trans (h.own_snd hi1 _).symm⟩

/-- The block of the second fragment stands for the sequence. -/
theorem represents (h : Spliced G H e b0 b1 F0 F1 is l) : Represents H b1 (F0.seq e F1) := by
  refine ⟨h.headOf.trans h.fst.headOf, fun i hi side j hj => h.node hi hj, ?_, ?_⟩
  · intro i hi
    rcases Finset.mem_union.mp hi with hi | hi
    · exact Nat.lt_of_lt_of_le (h.fst.lt i hi) h.size
    · exact Nat.lt_of_lt_of_le (h.snd.lt i hi) h.size
  · intro b
    obtain rfl | rfl : b = e ∨ b = !e := by cases b <;> cases e <;> simp
    · obtain ⟨js, hjs⟩ := h.snd.exits b
      exact ⟨js, h.exits_same hjs⟩
    · obtain ⟨js, hjs⟩ := h.fst.exits (!e)
      exact ⟨is ++ js, h.exits_other hjs⟩

end Spliced

/-- What the operations on fragments leave as it is: the statements and branches, the
blocks outside the fragments, and the memory. -/
structure SameElsewhere (nodes : Finset ℕ) (G H : Graph) : Prop where
  size : H.size = G.size
  pieces : H.pieces = G.pieces
  code : ∀ i, H.code i = G.code i
  block : ∀ i ∉ nodes, H.block i = G.block i

namespace SameElsewhere

variable {nodes : Finset ℕ} {G H K : Graph} {i : ℕ}

theorem refl (G : Graph) : SameElsewhere nodes G G :=
  ⟨rfl, rfl, fun _ => rfl, fun _ _ => rfl⟩

/-- Two changes, one after the other. -/
theorem trans (h : SameElsewhere nodes G H) (h' : SameElsewhere nodes H K) :
    SameElsewhere nodes G K where
  size := h'.size.trans h.size
  pieces := h'.pieces.trans h.pieces
  code i := (h'.code i).trans (h.code i)
  block i hi := (h'.block i hi).trans (h.block i hi)

/-- A block of the set may be changed, except for its code. -/
theorem modify (hi : i ∈ nodes) {f : Block → Block} (hcode : ∀ j, (H.modify i f).code j = H.code j)
    (h : SameElsewhere nodes G H) : SameElsewhere nodes G (H.modify i f) := by
  refine h.trans ⟨rfl, rfl, hcode, fun j hj => ?_⟩
  rw [block_modify, if_neg]
  rintro rfl
  exact hj hi

/-- Its edges may be set. -/
theorem setEdge (h : SameElsewhere nodes G H) (hi : i ∈ nodes) (side : Bool) (t : Option ℕ) :
    SameElsewhere nodes G (H.setEdge i side t) :=
  h.modify hi fun j => code_setEdge H i j side t

/-- Its sides may be exchanged. -/
theorem flip (h : SameElsewhere nodes G H) (hi : i ∈ nodes) : SameElsewhere nodes G (H.flip i) :=
  h.modify hi (code_flip H i)

/-- Its head may be set. -/
theorem setHead (h : SameElsewhere nodes G H) (hi : i ∈ nodes) (head : ℕ) :
    SameElsewhere nodes G (H.setHead i head) :=
  h.modify hi fun j => code_setHead H i j head

/-- A list of such blocks may be patched. -/
theorem patched {is : List ℕ} (h : SameElsewhere nodes G H) (his : ∀ i ∈ is, i ∈ nodes)
    (target : ℕ) : SameElsewhere nodes G (patched H is target) := by
  induction is generalizing H with
  | nil => exact h
  | cons i is ih =>
      exact ih (h.setEdge (his i List.mem_cons_self) _ _) fun j hj =>
        his j (List.mem_cons_of_mem _ hj)

end SameElsewhere

section Sequence

variable {G : Graph} {b0 b1 : ℕ} {F0 F1 : Flow ℕ}

/-- Merging the lists of the other exit puts the fragments in sequence, where the
exit `e` of the first has been resolved. -/
theorem merge_represents {e : Bool} {G2 : Graph} (h0 : Represents G b0 F0)
    (h1 : Represents G b1 F1) (hdisj : Disjoint F0.nodes F1.nodes) (hsize : G2.size = G.size)
    (hown : ∀ i, G2.own i = ((G.turn b0 (!e)).turn b1 (!e)).own i)
    (hedge : ∀ i side, G2.edge i side =
      if i ∈ F0.nodes ∧ F0.succ i side = .exit e then some F1.head else G.edge i side) :
    ∃ l ∈ F1.nodes, merge G2.size G2 b1 b0 = some (G2.setEdge l (G2.own l) (some b0)) ∧
      ∀ H : Graph, H.size = G.size → (∀ i, H.own i = (G.turn b0 (!e)).own i) →
        (∀ i side, H.edge i side = (G2.setEdge l (G2.own l) (some b0)).edge i side) →
        H.headOf b1 = G.headOf b0 → Represents H b1 (F0.seq e F1) := by
  obtain ⟨fs, hfs⟩ := h1.exits (!e)
  have hne1 : ∀ i ∈ F1.nodes, i ∉ F0.nodes := fun i hi => Finset.disjoint_right.mp hdisj hi
  have hown1 : ∀ i ∈ F1.nodes, G2.own i = (G.turn b1 (!e)).own i := by
    intro i hi
    have hib : i ≠ b0 := by
      rintro rfl
      exact hne1 _ hi h0.self_mem
    -- the blocks of the second part are not touched by the first part's patching
    rw [hown, own_turn, own_turn_of_ne G _ hib, ← own_turn]
  have hlist : Threads G2 (some b1) fs := by
    refine hfs.threads.congr (fun i hi => hown1 i (hfs.mem_nodes hi)) fun i hi => ?_
    rw [hedge, if_neg fun h => hne1 i (hfs.mem_nodes hi) h.1, edge_turn]
  obtain ⟨fs', rfl⟩ := hfs.eq_cons
  have hfuel : fs'.length < G2.size := by
    rw [hsize]
    exact h1.length_le hfs
  obtain ⟨l, hlast, hmerge⟩ := merge_eq b0 hlist hfuel
  have hl : l ∈ F1.nodes := hfs.mem_nodes (List.mem_of_getLast? hlast)
  refine ⟨l, hl, hmerge, fun H hHsize hHown hHedge hHhead => ?_⟩
  refine Spliced.represents ⟨h0, h1, hdisj, hfs, hlast, hHsize.ge, hHown, fun i side => ?_, hHhead⟩
  rw [hHedge, edge_setEdge, hedge, hown1 l hl]
  -- `l` is the block at the end of the second part's list, where the first's is linked
  by_cases hil : i = l
  · have hi0 : i ∉ F0.nodes := hil ▸ hne1 l hl
    rw [if_neg (c := i ∈ F0.nodes ∧ _) fun h => hi0 h.1,
      if_neg (c := i ∈ F0.nodes ∧ _) fun h => hi0 h.1]
  · rw [if_neg fun h => hil h.1, if_neg (c := i = l ∧ _) fun h => hil h.1]

/-- A sense that has been turned twice. -/
theorem turned_twice (i b : ℕ) (x : Bool) :
    (if i = b then !(if i = b then !x else x) else if i = b then !x else x) = x := by
  by_cases hib : i = b
  · rw [if_pos hib, if_pos hib, Bool.not_not]
  · rw [if_neg hib, if_neg hib]

/-- `gen_and` puts the second fragment behind the true exit of the first. -/
theorem genAnd_spec (h0 : Represents G b0 F0) (h1 : Represents G b1 F1)
    (hdisj : Disjoint F0.nodes F1.nodes) :
    ∃ H, genAnd G b0 b1 = some H ∧ Represents H b1 (F0.seq true F1) ∧
      SameElsewhere (F0.nodes ∪ F1.nodes) G H := by
  -- the true exits of the first part are given the second's head
  obtain ⟨ts, hts⟩ := h0.exits true
  have hb0 : b0 ∈ F0.nodes ∪ F1.nodes := Finset.mem_union_left _ h0.self_mem
  have hb1 : b1 ∈ F0.nodes ∪ F1.nodes := Finset.mem_union_right _ h1.self_mem
  have hpatch : backpatch G.size G (some b0) (G.headOf b1) =
      some (patched G ts (G.headOf b1)) :=
    backpatch_eq hts.threads hts.nodup (h0.length_le hts)
  have hsame : SameElsewhere (F0.nodes ∪ F1.nodes) G
      (((patched G ts (G.headOf b1)).flip b0).flip b1) :=
    (((SameElsewhere.refl G).patched (fun i hi => Finset.mem_union_left _ (hts.mem_nodes hi))
      _).flip hb0).flip hb1
  -- `G2` is the graph with the first part patched, and the second part's sense turned
  generalize hG2 : ((patched G ts (G.headOf b1)).flip b0).flip b1 = G2 at hsame
  have hown : ∀ i, G2.own i = ((G.flip b0).flip b1).own i := by
    intro i
    simp only [← hG2, own_flip, own_patched]
  have hedge : ∀ i side, G2.edge i side =
      if i ∈ F0.nodes ∧ F0.succ i side = .exit true then some F1.head else G.edge i side := by
    intro i side
    have hmem : i ∈ ts ∧ side = G.own i ↔ _ := hts.mem i side
    simp only [← hG2, edge_flip, edge_patched, hmem, h1.headOf]
  obtain ⟨l, hl, hmerge, hrep⟩ := merge_represents (e := true) h0 h1 hdisj hsame.size hown hedge
  have hsame' := hsame.setEdge (Finset.mem_union_right F0.nodes hl) (G2.own l) (some b0)
  have hhead : (G2.setEdge l (G2.own l) (some b0)).headOf b0 = G.headOf b0 := by
    simp only [headOf_setEdge, ← hG2, headOf_flip, headOf_patched]
  refine ⟨((G2.setEdge l (G2.own l) (some b0)).flip b1).setHead b1 (G.headOf b0), ?_,
    hrep _ hsame.size ?_ ?_ (headOf_setHead _ _ _), (hsame'.flip hb1).setHead hb1 _⟩
  · simp only [genAnd, hpatch, Option.bind_eq_bind, Option.bind_some, hG2, hmerge, headOf_flip,
      hhead]
    rfl
  · intro i
    rw [own_setHead, own_flip, own_setEdge, hown, own_flip, turned_twice]
    rfl
  · intro i side
    rw [edge_setHead, edge_flip]

/-- `gen_or` puts it behind the false exit. -/
theorem genOr_spec (h0 : Represents G b0 F0) (h1 : Represents G b1 F1)
    (hdisj : Disjoint F0.nodes F1.nodes) :
    ∃ H, genOr G b0 b1 = some H ∧ Represents H b1 (F0.seq false F1) ∧
      SameElsewhere (F0.nodes ∪ F1.nodes) G H := by
  -- the false exits of the first part are given the second's head
  obtain ⟨fs, hfs⟩ := h0.exits false
  have hb0 : b0 ∈ F0.nodes ∪ F1.nodes := Finset.mem_union_left _ h0.self_mem
  have hb1 : b1 ∈ F0.nodes ∪ F1.nodes := Finset.mem_union_right _ h1.self_mem
  have hpatch : backpatch (G.flip b0).size (G.flip b0) (some b0) (G.headOf b1) =
      some (patched (G.flip b0) fs (G.headOf b1)) :=
    backpatch_eq hfs.threads hfs.nodup (h0.length_le hfs)
  have hsame : SameElsewhere (F0.nodes ∪ F1.nodes) G
      ((patched (G.flip b0) fs (G.headOf b1)).flip b0) :=
    ((((SameElsewhere.refl G).flip hb0).patched
      (fun i hi => Finset.mem_union_left _ (hfs.mem_nodes hi)) _).flip hb0)
  -- `G2` is the graph with the first part patched; every block has the sense it had
  generalize hG2 : (patched (G.flip b0) fs (G.headOf b1)).flip b0 = G2 at hsame
  have hown : ∀ i, G2.own i = G.own i := by
    intro i
    rw [← hG2, own_flip, own_patched, own_flip, turned_twice]
  have hedge : ∀ i side, G2.edge i side =
      if i ∈ F0.nodes ∧ F0.succ i side = .exit false then some F1.head else G.edge i side := by
    intro i side
    have hmem : i ∈ fs ∧ side = (G.flip b0).own i ↔ _ := hfs.mem i side
    simp only [← hG2, edge_flip, edge_patched, hmem, h1.headOf]
  obtain ⟨l, hl, hmerge, hrep⟩ := merge_represents (e := false) h0 h1 hdisj hsame.size hown hedge
  have hsame' := hsame.setEdge (Finset.mem_union_right F0.nodes hl) (G2.own l) (some b0)
  have hhead : (G2.setEdge l (G2.own l) (some b0)).headOf b0 = G.headOf b0 := by
    simp only [headOf_setEdge, ← hG2, headOf_flip, headOf_patched]
  refine ⟨(G2.setEdge l (G2.own l) (some b0)).setHead b1 (G.headOf b0), ?_,
    hrep _ hsame.size ?_ ?_ (headOf_setHead _ _ _), hsame'.setHead hb1 _⟩
  · simp only [genOr, headOf_flip, hpatch, Option.bind_eq_bind, Option.bind_some, hG2, hmerge,
      hhead]
    rfl
  · intro i
    rw [own_setHead, own_setEdge, hown]
    rfl
  · intro i side
    rw [edge_setHead]

end Sequence

end MobiPerf.Capture
