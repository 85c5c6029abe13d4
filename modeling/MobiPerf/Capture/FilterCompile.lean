import MobiPerf.Capture.FilterSearch

/-!
# Capture.FilterCompile — `pcap_compile`

The compiler without the optimizer, from the expression to the array: what it
returns passes `bpf_validate`, has no backward jumps, and gives every packet the
verdict of the expression.
-/

namespace MobiPerf.Capture

open Lib SocketProc

/-! ## The array is a valid program -/

section Valid

variable {G : Graph} {root : ℕ} {L : FcodeLayout}

theorem Emitted.at (h : Emitted G root L) (a : ℕ) : L.at a = L.fcode[a]? := by
  rw [FcodeLayout.at, h.ftail, if_neg (Nat.not_lt_zero a), Nat.sub_zero]

theorem checkInsns_of {len i : ℕ} {ps : List Insn}
    (h : ∀ j p, ps[j]? = some p → checkInsn len (i + j) p) : checkInsns len i ps = true := by
  induction ps generalizing i with
  | nil => rfl
  | cons q ps ih =>
      rw [checkInsns, Bool.and_eq_true]
      refine ⟨h 0 q rfl, ih fun j p hj => ?_⟩
      rw [Nat.add_assoc, Nat.add_comm 1 j]
      exact h (j + 1) p hj

theorem Emitted.validate (h : Emitted G root L) : bpfValidate L.fcode = true := by
  have hplaced := h.placed root h.root.1
  have hhigh := hplaced.high
  have hne : L.fcode ≠ [] := by
    intro hnil
    rw [h.ftail, h.root.2, hnil] at hhigh
    exact absurd hhigh (Nat.lt_irrefl 0)
  have hlast : L.fcode.getLast? = some (L.fcode.getLast hne) := List.getLast?_eq_some_getLast hne
  unfold bpfValidate
  rw [hlast]
  simp only [Bool.and_eq_true, decide_eq_true_eq]
  refine ⟨checkInsns_of fun j p hj => ?_, h.good.last _ hlast⟩
  rw [Nat.zero_add]
  exact (h.good.check j p ((h.at j).trans hj)).1

theorem Emitted.forward (h : Emitted G root L) : Forward L.fcode := fun i p hp hop =>
  (h.good.check i p ((h.at i).trans hp)).2 hop

end Valid

/-! ## The array runs as the graph does -/

section Run

variable {G : Graph} {root : ℕ} {L : FcodeLayout} {env : Env} {f : List Insn}

theorem step_move {a : ℕ} {r : Regs} {i : Insn} {m : Move} (h : f[a]? = some i)
    (hop : decodeOp i.code = some (.move m)) :
    filterStep env f ⟨a, r⟩ = (m.perform env i.k r).bind fun r => .next ⟨a + 1, r⟩ := by
  simp only [filterStep, h, hop]

/-- Statements run one after the other. -/
theorem runStmts_leads {ts : List FilterStmt} {a : ℕ} {r r' : Regs} (hplain : ∀ t ∈ ts, t.Plain)
    (hat : ∀ j t, ts[j]? = some t → f[a + j]? = some t.insn)
    (hrun : runStmts env ts r = .next r') :
    Machine.Leads (filterStep env f) ⟨a, r⟩ ⟨a + ts.length, r'⟩ := by
  induction ts generalizing a r with
  | nil =>
      cases hrun
      exact Machine.Leads.refl _
  | cons t ts ih =>
      obtain ⟨m, hop, -⟩ := hplain t List.mem_cons_self
      obtain ⟨r1, hr1, hrest⟩ := Stepped.bind_eq_next.mp hrun
      rw [perform_of_decode hop] at hr1
      have hstep : filterStep env f ⟨a, r⟩ = _ := step_move (hat 0 t rfl) hop
      rw [show m.perform env t.insn.k r = _ from hr1] at hstep
      have hleads := ih (a := a + 1) (fun u hu => hplain u (List.mem_cons_of_mem _ hu))
        (fun j u hj => by
          rw [Nat.add_assoc, Nat.add_comm 1 j]
          exact hat (j + 1) u hj) hrest
      rw [List.length_cons, Nat.add_comm ts.length 1, ← Nat.add_assoc]
      exact (Machine.Leads.single hstep).trans hleads

/-- A statement may end the filter. -/
theorem runStmts_yields {ts : List FilterStmt} {a : ℕ} {r : Regs} {x : Result}
    (hplain : ∀ t ∈ ts, t.Plain) (hat : ∀ j t, ts[j]? = some t → f[a + j]? = some t.insn)
    (hrun : runStmts env ts r = .halt x) : Machine.Yields (filterStep env f) ⟨a, r⟩ x := by
  induction ts generalizing a r with
  | nil => cases hrun
  | cons t ts ih =>
      obtain ⟨m, hop, -⟩ := hplain t List.mem_cons_self
      have hstep : filterStep env f ⟨a, r⟩ = _ := step_move (hat 0 t rfl) hop
      rcases Stepped.bind_eq_halt.mp hrun with hx | ⟨r1, hr1, hrest⟩
      · rw [perform_of_decode hop] at hx
        rw [show m.perform env t.insn.k r = _ from hx] at hstep
        exact Machine.Yields.halt hstep
      · rw [perform_of_decode hop] at hr1
        rw [show m.perform env t.insn.k r = _ from hr1] at hstep
        refine Machine.Yields.next hstep (ih (fun u hu => hplain u (List.mem_cons_of_mem _ hu))
          (fun j u hj => ?_) hrest)
        rw [Nat.add_assoc, Nat.add_comm 1 j]
        exact hat (j + 1) u hj

/-- A side of a branch leads to its target in one step or in two. -/
theorem lands_leads (hL : ∀ a, L.at a = f[a]?) {a t : ℕ} {x : UInt8} (h : Lands L a x t)
    (ht : t < 2 ^ 32) (r : Regs) :
    Machine.Leads (filterStep env f) ⟨a + 1 + x.toNat, r⟩ ⟨t, r⟩ := by
  rcases h with rfl | ⟨k, hk, rfl⟩
  · exact Machine.Leads.refl _
  · refine Machine.Leads.single ?_
    rw [hL] at hk
    simp only [filterStep, hk, decode_farJump, jaTarget]
    rw [show (farJump k).k = k from rfl, Nat.mod_eq_of_lt ht]

/-- A block of the graph, and the side it takes. -/
theorem block_leads (h : Emitted G root L) (hG : Sealed G) (hN : L.fcode.length < 2 ^ 32) {i j : ℕ}
    {r r' : Regs} (hi : i ∈ L.mark) (hstep : graphStep env G (i, r) = .next (j, r')) :
    Machine.Leads (filterStep env L.fcode) ⟨L.offset i, r⟩ ⟨L.offset j, r'⟩ ∧ j ∈ L.mark := by
  have hplaced := h.placed i hi
  have hstmts : ∀ k t, (G.code i).1[k]? = some t → L.fcode[L.offset i + k]? = some t.insn :=
    fun k t hk => (h.at _).symm.trans (hplaced.stmts k t hk)
  -- a block that returns leads nowhere
  rcases hG.block i (h.lt i hi) with ⟨v, hcode, -⟩ | ⟨t, hcode, -⟩
  · rw [graphStep_ret hcode] at hstep
    cases hstep
  · obtain ⟨x, y, hbranch, hlands⟩ := hplaced.branch
    obtain ⟨cond, src, hop⟩ := t.cond
    unfold graphStep at hstep
    split at hstep
    · cases hstep
    · rename_i side r1 hexec
      split at hstep
      · rename_i j' hedge
        cases hstep
        obtain ⟨r2, hrun, hbr⟩ := Stepped.bind_eq_next.mp hexec
        have hj := h.closed i hi side j hedge
        refine ⟨?_, hj⟩
        rw [hcode] at hrun hbr hbranch hstmts
        -- the statements leave the registers that the jump tests
        have hbr' : (Stepped.next (cond.holds r2.A (src.value t.s.k r2), r2) :
            Stepped (Bool × Regs) Result) = .next (side, r') := by
          rw [← hbr]
          show _ = t.s.branch r2
          simp only [FilterStmt.branch, hop]
        cases hbr'
        have hjump : filterStep env L.fcode ⟨L.offset i + t.stmts.length, r'⟩ =
            .next ⟨L.offset i + t.stmts.length + 1 +
              (if cond.holds r'.A (src.value t.s.k r') then x else y).toNat, r'⟩ := by
          rw [h.at] at hbranch
          simp only [filterStep, show L.fcode[L.offset i + t.stmts.length]? = _ from hbranch]
          rw [show decodeOp t.code.2.code = _ from hop]
          rfl
        -- the jump, or the long jump behind it, lands on the target block
        have hland := hlands _ j hedge
        rw [hcode] at hland
        have htarget : L.offset j < 2 ^ 32 := by
          have hhigh := (h.placed j hj).high
          rw [h.ftail] at hhigh
          omega
        exact ((runStmts_leads t.s0.plain hstmts hrun).trans (Machine.Leads.single hjump)).trans
          (lands_leads h.at hland htarget r')
      · cases hstep

/-- A block that ends the filter. -/
theorem block_yields (h : Emitted G root L) (hG : Sealed G) {i : ℕ} {r : Regs} {x : Result}
    (hi : i ∈ L.mark) (hstep : graphStep env G (i, r) = .halt x) :
    Machine.Yields (filterStep env L.fcode) ⟨L.offset i, r⟩ x := by
  have hplaced := h.placed i hi
  -- the block returns
  rcases hG.block i (h.lt i hi) with ⟨v, hcode, -⟩ | ⟨t, hcode, hsome⟩
  · rw [graphStep_ret hcode] at hstep
    cases hstep
    obtain ⟨x, y, hbranch, -⟩ := hplaced.branch
    rw [hcode, h.at] at hbranch
    refine Machine.Yields.halt ?_
    simp only [filterStep, show L.fcode[L.offset i]? = _ from hbranch]
    rw [show decodeOp (bpfRet ||| bpfK) = _ from decode_ret]
  · -- the block jumps: what ends the program is one of its statements
    have hstmts : ∀ k u, t.stmts[k]? = some u → L.fcode[L.offset i + k]? = some u.insn := by
      intro k u hk
      rw [← h.at]
      refine hplaced.stmts k u ?_
      rw [hcode]
      exact hk
    unfold graphStep at hstep
    rw [hcode] at hstep
    split at hstep
    · rename_i x' hexec
      cases hstep
      obtain ⟨cond, src, hop⟩ := t.cond
      rcases Stepped.bind_eq_halt.mp hexec with hrun | ⟨r1, -, hbr⟩
      · exact runStmts_yields t.s0.plain hstmts hrun
      · have hnext : t.code.2.branch r1 = .next (cond.holds r1.A (src.value t.s.k r1), r1) := by
          show t.s.branch r1 = _
          simp only [FilterStmt.branch, hop]
        rw [hnext] at hbr
        cases hbr
    · rename_i side r1 hexec
      obtain ⟨j, hj, -, -⟩ := hsome side
      simp only [hj] at hstep
      cases hstep

/-- The array yields what the graph yields from its root. -/
theorem Emitted.yields (h : Emitted G root L) (hG : Sealed G) (hN : L.fcode.length < 2 ^ 32)
    {mem : Fin bpfMemwords → UInt32} {x : Result}
    (hx : (graphStep env G).Yields (root, (FilterState.start mem).regs) x) :
    (filterStep env L.fcode).Yields (FilterState.start mem) x := by
  have hstart : FilterState.start mem = ⟨L.offset root, (FilterState.start mem).regs⟩ := by
    rw [h.root.2]
    rfl
  rw [hstart]
  refine Machine.Yields.simulated
    (R := fun c s => c.1 ∈ L.mark ∧ s = ⟨L.offset c.1, c.2⟩) ?_ ?_ hx ⟨h.root.1, rfl⟩
  · rintro ⟨i, r⟩ ⟨j, r'⟩ _ ⟨hi, rfl⟩ hstep
    obtain ⟨hleads, hj⟩ := block_leads h hG hN hi hstep
    exact ⟨_, hleads, hj, rfl⟩
  · rintro ⟨i, r⟩ _ ⟨hi, rfl⟩ hstep
    exact block_yields h hG hi hstep

end Run

/-! ## `pcap_compile` -/

/-- `icode_to_fcode` of a complete graph: a valid program without backward jumps,
which yields what the graph yields. A side of a block is marked once, at most. -/
theorem icodeToFcode_yields {G : Graph} {root : ℕ} (hG : Sealed G) (hroot : root < G.size)
    (hbound : G.bound < 2 ^ 31) :
    ∃ f, icodeToFcode G root (2 * G.size + 1) FcodeLayout.start = some f ∧
      bpfValidate f ∧ Forward f ∧
      ∀ env mem x, (graphStep env G).Yields (root, (FilterState.start mem).regs) x →
        (filterStep env f).Yields (FilterState.start mem) x := by
  have hdeficit : deficit G FcodeLayout.start.long < 2 * G.size + 1 := by
    rw [deficit_start]
    exact Nat.lt_succ_self _
  obtain ⟨L, hcode, h⟩ :=
    icodeToFcode_spec hG hroot (by omega) (long_start_ok G) hdeficit
  refine ⟨L.fcode, hcode, h.validate, h.forward, fun env mem x hx => h.yields hG ?_ hx⟩
  have hle := h.length_le
  omega

/-- `pcap_compile` without the optimizer; a snapshot length of 0 is an error, and so is
a request that `newchunk` does not meet, whenever it is made. -/
def pcapCompile (build : Build) (snaplen : UInt32) (e : Option Expr) : Option (List Insn) :=
  if snaplen = 0 then none
  else do
    let (G, root) ← parseGraph snaplen e
    if Fits build G.pieces then icodeToFcode G root (2 * G.size + 1) FcodeLayout.start
    else none

section PcapCompile

variable {build : Build} {snaplen : UInt32} {e : Option Expr}

/-- What `pcap_compile` returns is valid and has the meaning of the expression, over
every environment. -/
theorem pcapCompile_yields (hsnaplen : snaplen ≠ 0) (hfits : Fits build (filterPieces e)) :
    ∃ f, pcapCompile build snaplen e = some f ∧ bpfValidate f ∧ Forward f ∧
      ∀ env mem, (filterStep env f).Yields (FilterState.start mem)
        (filterResult snaplen env (FilterState.start mem).regs e) := by
  obtain ⟨G, root, hparse, hG, hroot, hpieces, hsum, hyields⟩ := parseGraph_yields snaplen e
  -- there is no memory for a graph that would be too long
  obtain ⟨f, hcode, hvalid, hforward, hrun⟩ := icodeToFcode_yields hG hroot
    (lt_of_eq_of_lt hsum (filterBound_lt hfits))
  refine ⟨f, ?_, hvalid, hforward, fun env mem => hrun env mem _ (hyields env _)⟩
  rw [← hpieces] at hfits
  simp [pcapCompile, hsnaplen, hparse, hcode, hfits]

/-- An expression is compiled exactly if there is memory for it. -/
theorem pcapCompile_isSome_iff :
    (pcapCompile build snaplen e).isSome ↔ snaplen ≠ 0 ∧ Fits build (filterPieces e) := by
  constructor
  · intro h
    unfold pcapCompile at h
    split at h
    · cases h
    · rename_i hsnaplen
      obtain ⟨G, root, hparse, -, -, hpieces, -⟩ := parseGraph_yields snaplen e
      by_cases hfits : Fits build G.pieces
      · exact ⟨hsnaplen, hpieces ▸ hfits⟩
      · simp only [hparse, Option.bind_eq_bind, Option.bind_some, if_neg hfits] at h
        cases h
  · rintro ⟨hsnaplen, hfits⟩
    obtain ⟨f, hcompile, -⟩ := pcapCompile_yields hsnaplen hfits
    rw [hcompile]
    rfl

end PcapCompile

end MobiPerf.Capture
