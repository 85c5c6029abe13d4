import Mathlib.Data.List.Forall2
import MobiPerf.Capture.Bpf

/-!
# Capture.FilterKernel — filters that the kernel runs

`fix_program` rewrites a copy of the filter for the socket: the kernel takes the
return value for the length to keep, and on a cooked socket it sees the payload
without the fake link-layer header that the library puts in front of it.

The kernel runs the same instructions over its own loads (`KernelLoads`). Where
each instruction that runs is `Portable`, it gives the verdict that `bpf_filter` gives
on the packet that the callback gets, if that is whole and has no tag. Lengths on a
cooked socket, loads of a part of the protocol field and indexed loads at its offset
are not portable, and `fix_program` lets them through.
-/

namespace MobiPerf.Capture

open Lib SocketProc

/-! ## `fix_program` -/

def sllHdrLen : UInt32 := 16

/-- `SKF_AD_OFF` and `SKF_AD_PROTOCOL`. -/
def skfAdOff : UInt32 := 0xfffff000
def skfAdProtocol : UInt32 := 0

/-- `none` is the punt to userland. -/
def fixOffset (p : Insn) : Option Insn :=
  if p.k ≥ sllHdrLen then some { p with k := p.k - sllHdrLen }
  else if p.k = 14 then some { p with k := skfAdOff + skfAdProtocol }
  else none

def fixInsn (cooked isMmapped : Bool) (p : Insn) : Option Insn :=
  if bpfClass p.code = bpfRet then
    if !isMmapped then
      -- the mode of `BPF_RET|BPF_A` is 0 too; its `k` is not read
      if bpfMode p.code = bpfK then
        if p.k ≠ 0 then some { p with k := 65535 } else some p
      else some p
    else some p
  else if bpfClass p.code = bpfLd ∨ bpfClass p.code = bpfLdx then
    if bpfMode p.code = bpfAbs ∨ bpfMode p.code = bpfInd ∨ bpfMode p.code = bpfMsh then
      if cooked then fixOffset p else some p
    else some p
  else some p

/-- The loop over the copy; `none` where it returns 0. -/
def fixProgram (cooked isMmapped : Bool) : List Insn → Option (List Insn)
  | [] => some []
  | p :: ps => do
    let q ← fixInsn cooked isMmapped p
    let qs ← fixProgram cooked isMmapped ps
    return q :: qs

/-! ## The kernel -/

/-- Loads from the packet as the kernel has it. Offsets from 2³¹ on are negative, and
the one of the protocol is special. -/
structure KernelLoads (payload : Bytes) (protocol wirelen : UInt32) (kernel : Env) : Prop where
  load : ∀ size (k : UInt32), k.toNat < 2 ^ 31 → kernel.load size k = loadPacket payload size k
  protocol : ∀ size, kernel.load size (skfAdOff + skfAdProtocol) = .next protocol
  wirelen : kernel.wirelen = wirelen

/-- `struct sll_header`, with the protocol at the end. -/
structure SllHeader where
  bytes : Bytes
  length : bytes.length = 16

def SllHeader.protocol (hdr : SllHeader) : UInt32 :=
  extractShort (hdr.bytes.get ⟨14, by rw [hdr.length]; decide⟩)
    (hdr.bytes.get ⟨15, by rw [hdr.length]; decide⟩)

/-- A packet without a tag as the callback gets it, if nothing of it is cut off: on a
cooked socket the fake header is in front. -/
def presented (cooked : Bool) (hdr : SllHeader) (payload : Bytes) (wirelen : UInt32) : Env :=
  if cooked then userland (hdr.bytes ++ payload) (wirelen + sllHdrLen)
  else userland payload wirelen

/-- An offset that both have in the payload. -/
def InPayload (cooked : Bool) (k : UInt32) : Prop :=
  (cooked → 16 ≤ k.toNat) ∧ k.toNat < 2 ^ 31

/-- An instruction that means the same to the kernel, once it is fixed. -/
def Portable (cooked : Bool) (i : Insn) (r : Regs) : Prop :=
  match decodeOp i.code with
  | some (.move (.ldAbs size)) => InPayload cooked i.k ∨ cooked ∧ i.k = 14 ∧ size = .h
  | some (.move (.ldInd _)) => InPayload cooked (r.X + i.k) ∧ (cooked → i.k ≠ 14)
  | some (.move .ldxMsh) => InPayload cooked i.k
  | some (.move .ldLen) => !cooked
  | some (.move .ldxLen) => !cooked
  | _ => True

/-- The verdict of the kernel: without a ring it keeps up to 65535 bytes. -/
def SameVerdict (isMmapped : Bool) (x x' : Result) : Prop :=
  x' = x ∨ isMmapped = false ∧ ∃ v, v ≠ 0 ∧ x = .ret v ∧ x' = .ret 65535

/-! ## Instructions -/

section Insns

variable {cooked isMmapped : Bool} {p q : Insn} {op : Op}

/-- The loads from the packet. -/
def Op.readsPacket : Op → Bool
  | .move (.ldAbs _) => true
  | .move (.ldInd _) => true
  | .move .ldxMsh => true
  | _ => false

/-- A load of the packet by its class and mode. -/
theorem class_of_readsPacket : ∀ c ∈ opcodes, c.2.readsPacket →
    bpfClass c.1 ≠ bpfRet ∧ (bpfClass c.1 = bpfLd ∨ bpfClass c.1 = bpfLdx) ∧
      (bpfMode c.1 = bpfAbs ∨ bpfMode c.1 = bpfInd ∨ bpfMode c.1 = bpfMsh) := by
  decide

/-- The other loads have another mode. -/
theorem class_of_not_readsPacket : ∀ c ∈ opcodes, c.2.readsPacket = false →
    (bpfClass c.1 = bpfLd ∨ bpfClass c.1 = bpfLdx) →
      ¬ (bpfMode c.1 = bpfAbs ∨ bpfMode c.1 = bpfInd ∨ bpfMode c.1 = bpfMsh) := by
  decide

/-- The return of a constant. -/
theorem class_of_retK : ∀ c ∈ opcodes, c.2 = .retK →
    bpfClass c.1 = bpfRet ∧ bpfMode c.1 = bpfK := by
  decide

/-- A load is changed on a cooked ring only. -/
theorem fixInsn_load (hop : decodeOp p.code = some op) (hreads : op.readsPacket) :
    fixInsn cooked isMmapped p = if cooked then fixOffset p else some p := by
  obtain ⟨hret, hclass, hmode⟩ := class_of_readsPacket _ (mem_opcodes hop) hreads
  rw [fixInsn, if_neg hret, if_pos hclass, if_pos hmode]

/-- The constant is raised where the packet is to be copied whole. -/
theorem fixInsn_retK (hop : decodeOp p.code = some .retK) :
    fixInsn cooked isMmapped p =
      some { p with k := if isMmapped = false ∧ p.k ≠ 0 then 65535 else p.k } := by
  obtain ⟨hclass, hmode⟩ := class_of_retK _ (mem_opcodes hop) rfl
  obtain ⟨code, jt, jf, k⟩ := p
  rw [fixInsn, if_pos hclass, if_pos hmode]
  cases isMmapped with
  | true => rfl
  | false =>
      by_cases hk : k = 0
      · subst hk
        rfl
      · simp [hk]

/-- What is not a return or a load from the packet is left as it is. -/
theorem fixInsn_other (hop : decodeOp p.code = some op) (hreads : op.readsPacket = false)
    (hretK : op ≠ .retK) (hretA : op ≠ .retA) : fixInsn cooked isMmapped p = some p := by
  have hret : bpfClass p.code ≠ bpfRet := fun hclass =>
    (class_of_ret _ (mem_opcodes hop) hclass).elim hretK hretA
  rw [fixInsn, if_neg hret]
  split
  · rename_i hclass
    rw [if_neg (class_of_not_readsPacket _ (mem_opcodes hop) hreads hclass)]
  · rfl

/-- Only the offset is changed. -/
theorem fixOffset_same (h : fixOffset p = some q) :
    q.code = p.code ∧ q.jt = p.jt ∧ q.jf = p.jf := by
  unfold fixOffset at h
  split at h
  · cases h
    exact ⟨rfl, rfl, rfl⟩
  · split at h
    · cases h
      exact ⟨rfl, rfl, rfl⟩
    · cases h

theorem fixInsn_same (h : fixInsn cooked isMmapped p = some q) :
    q.code = p.code ∧ q.jt = p.jt ∧ q.jf = p.jf := by
  unfold fixInsn at h
  repeat' split at h
  all_goals
    first
    | exact fixOffset_same h
    | cases h
      exact ⟨rfl, rfl, rfl⟩

/-- The program is changed instruction by instruction. -/
theorem fixProgram_get {f g : List Insn} (h : fixProgram cooked isMmapped f = some g) (i : ℕ) :
    (f[i]? = none ∧ g[i]? = none) ∨
      ∃ p q, f[i]? = some p ∧ g[i]? = some q ∧ fixInsn cooked isMmapped p = some q := by
  induction f generalizing g i with
  | nil =>
      cases h
      exact .inl ⟨rfl, rfl⟩
  | cons p ps ih =>
      simp only [fixProgram, Option.bind_eq_bind, Option.bind_eq_some_iff] at h
      obtain ⟨q, hq, qs, hqs, h⟩ := h
      cases h
      cases i with
      | zero => exact .inr ⟨p, q, rfl, rfl, hq⟩
      | succ i => exact ih hqs i

end Insns

/-! ## Loads -/

section Loads

variable {cooked : Bool} {hdr : SllHeader} {payload : Bytes} {protocol wirelen : UInt32}
  {kernel : Env}

/-- Where there are too few bytes nothing can be read. -/
theorem extract_none {size : Size} {bs : Bytes} (h : bs.length < size.bytes) :
    extract size bs = none := by
  cases size with
  | w =>
      obtain _ | ⟨_, _ | ⟨_, _ | ⟨_, _ | ⟨_, _⟩⟩⟩⟩ := bs
      · rfl
      · rfl
      · rfl
      · rfl
      · exact absurd h (by simp [Size.bytes])
  | h =>
      obtain _ | ⟨_, _ | ⟨_, _⟩⟩ := bs
      · rfl
      · rfl
      · exact absurd h (by simp [Size.bytes])
  | b =>
      obtain _ | ⟨_, _⟩ := bs
      · rfl
      · exact absurd h (by simp [Size.bytes])

/-- Where the test does not wrap, a load reads the bytes if they are there. -/
theorem loadPacket_eq {ps : Bytes} {k : UInt32} {size : Size} (hlt : k.toNat < 2 ^ 31) :
    loadPacket ps size k = match extract size (ps.drop k.toNat) with
      | some v => .next v
      | none => Outcome.reject := by
  have hpast : past ps.length k size = decide ((ps.drop k.toNat).length < size.bytes) := by
    rw [List.length_drop]
    cases size with
    | w | h | b =>
        refine decide_eq_decide.mpr ?_
        simp only [Size.bytes]
        omega
  rw [loadPacket, hpast]
  by_cases hshort : (ps.drop k.toNat).length < size.bytes
  · rw [extract_none hshort, if_pos (decide_eq_true hshort)]
  · rw [if_neg (by simpa using hshort)]
    obtain ⟨v, hv⟩ := Option.isSome_iff_exists.mp (extract_isSome (Nat.not_lt.mp hshort))
    rw [hv]

/-- Behind the fake header the offset is 16 less. -/
theorem toNat_sub_sllHdrLen {k : UInt32} (hk : 16 ≤ k.toNat) :
    (k - sllHdrLen).toNat = k.toNat - 16 := by
  have hle : sllHdrLen ≤ k := hk
  rw [UInt32.toNat_sub_of_le _ _ hle]
  rfl

/-- Behind the fake header the payload begins. -/
theorem loadPacket_append {ps : Bytes} {k : UInt32} {size : Size} (hk : 16 ≤ k.toNat)
    (hlt : k.toNat < 2 ^ 31) :
    loadPacket (hdr.bytes ++ ps) size k = loadPacket ps size (k - sllHdrLen) := by
  have hsub := toNat_sub_sllHdrLen hk
  rw [loadPacket_eq hlt, loadPacket_eq (by omega), hsub, List.drop_append, hdr.length,
    List.drop_of_length_le (by rw [hdr.length]; exact hk), List.nil_append]

/-- In the header there is the protocol. -/
theorem loadPacket_protocol (ps : Bytes) :
    loadPacket (hdr.bytes ++ ps) .h 14 = .next hdr.protocol := by
  have h14 : 14 < hdr.bytes.length := by rw [hdr.length]; decide
  have h15 : 15 < hdr.bytes.length := by rw [hdr.length]; decide
  have hdrop : (hdr.bytes ++ ps).drop 14 = hdr.bytes[14] :: hdr.bytes[15] :: ps := by
    rw [List.drop_append_of_le_length (by omega), List.drop_eq_getElem_cons h14,
      List.drop_eq_getElem_cons h15, List.drop_of_length_le (by rw [hdr.length])]
    rfl
  rw [loadPacket_eq (by decide), show (14 : UInt32).toNat = 14 from rfl, hdrop]
  rfl

/-- A portable load gives the kernel what it gives `bpf_filter`. -/
theorem load_fixed {size : Size} {k : UInt32}
    (hkernel : KernelLoads payload hdr.protocol wirelen kernel)
    (h : InPayload cooked k) :
    kernel.load size (if cooked then k - sllHdrLen else k) =
      (presented cooked hdr payload wirelen).load size k := by
  cases cooked with
  | false => exact hkernel.load size k h.2
  | true =>
      have hk : 16 ≤ k.toNat := h.1 rfl
      have hsub := toNat_sub_sllHdrLen hk
      have hlt := h.2
      show kernel.load size (k - sllHdrLen) = loadPacket (hdr.bytes ++ payload) size k
      rw [loadPacket_append hk hlt]
      exact hkernel.load size (k - sllHdrLen) (by omega)

end Loads

/-! ## The fixed program -/

section Fixed

variable {cooked isMmapped : Bool} {hdr : SllHeader} {payload : Bytes} {wirelen : UInt32}
  {kernel : Env} {f g : List Insn}

/-- What is in the payload is not the protocol. -/
theorem InPayload.ne {k : UInt32} (h : InPayload cooked k) (hc : cooked) : k ≠ 14 := by
  rintro rfl
  exact absurd (h.1 hc) (by decide)

/-- The constant of a load that is not one of the protocol. -/
theorem fixInsn_k {p q : Insn} {op : Op} (hop : decodeOp p.code = some op)
    (hreads : op.readsPacket) (hfix : fixInsn cooked isMmapped p = some q)
    (hne : cooked → p.k ≠ 14) : q.k = if cooked then p.k - sllHdrLen else p.k := by
  rw [fixInsn_load hop hreads] at hfix
  cases cooked with
  | false =>
      cases hfix
      rfl
  | true =>
      rw [if_pos rfl, fixOffset] at hfix
      split at hfix
      · cases hfix
        rfl
      · rw [if_neg (hne rfl)] at hfix
        cases hfix

/-- An instruction that was changed does to the payload what it did to the packet. -/
theorem perform_fixed {p q : Insn} {m : Move} {r : Regs}
    (hkernel : KernelLoads payload hdr.protocol wirelen kernel)
    (hop : decodeOp p.code = some (.move m)) (hfix : fixInsn cooked isMmapped p = some q)
    (hport : Portable cooked p r) :
    m.perform kernel q.k r = m.perform (presented cooked hdr payload wirelen) p.k r := by
  simp only [Portable, hop] at hport
  cases m with
  | ldAbs size =>
      rcases hport with hin | ⟨hc, hk, rfl⟩
      · rw [Move.perform, Move.perform, ← load_fixed hkernel hin,
          fixInsn_k hop rfl hfix hin.ne]
      · -- the protocol field
        subst hc
        rw [fixInsn_load hop rfl, if_pos rfl, fixOffset, hk, if_neg (by decide), if_pos rfl] at hfix
        cases hfix
        rw [Move.perform, Move.perform, hk, hkernel.protocol]
        show _ = (loadPacket (hdr.bytes ++ payload) .h 14).bind _
        rw [loadPacket_protocol]
  | ldInd size =>
      rw [Move.perform, Move.perform, ← load_fixed hkernel hport.1, fixInsn_k hop rfl hfix hport.2]
      cases cooked with
      | false => rfl
      | true => rw [if_pos rfl, if_pos rfl, add_sub_assoc]
  | ldxMsh =>
      rw [Move.perform, Move.perform, ← load_fixed hkernel hport, fixInsn_k hop rfl hfix hport.ne]
  | ldLen | ldxLen =>
      have hc : cooked = false := by simpa using hport
      subst hc
      rw [Move.perform, Move.perform, hkernel.wirelen]
      rfl
  | ldImm | ldxImm | ldMem | ldxMem | st | stx | alu op src | neg | tax | txa =>
      have hsame : fixInsn cooked isMmapped p = some p :=
        fixInsn_other hop rfl Op.noConfusion Op.noConfusion
      rw [hsame] at hfix
      cases hfix
      rfl

/-- One step of the kernel and of `bpf_filter`. -/
theorem step_fixed (hkernel : KernelLoads payload hdr.protocol wirelen kernel)
    (hfix : fixProgram cooked isMmapped f = some g) {s : FilterState}
    (hport : ∀ i, f[s.pc]? = some i → Portable cooked i s.regs) :
    filterStep kernel g s = filterStep (presented cooked hdr payload wirelen) f s ∨
      ∃ x x', filterStep (presented cooked hdr payload wirelen) f s = .halt x ∧
        filterStep kernel g s = .halt x' ∧ SameVerdict isMmapped x x' := by
  rcases fixProgram_get hfix s.pc with ⟨hf, hg⟩ | ⟨p, q, hf, hg, hpq⟩
  · left
    simp only [filterStep, hf, hg]
  · obtain ⟨hcode, hjt, hjf⟩ := fixInsn_same hpq
    cases hop : decodeOp p.code with
    | none =>
        left
        simp only [filterStep, hf, hg, hcode, hop]
    | some op =>
        cases op with
        -- `ret #k` is made `ret #65535`, unless the ring is mapped or `k` is 0
        | retK =>
            right
            refine ⟨.ret p.k, .ret q.k, by simp only [filterStep, hf, hop],
              by simp only [filterStep, hg, hcode, hop], ?_⟩
            rw [fixInsn_retK hop] at hpq
            cases hpq
            by_cases hk : isMmapped = false ∧ p.k ≠ 0
            · exact .inr ⟨hk.1, p.k, hk.2, rfl, by rw [if_pos hk]⟩
            · exact .inl (by rw [if_neg hk])
        | retA =>
            left
            simp only [filterStep, hf, hg, hcode, hop]
        -- jumps, and returns of the accumulator, stay as they are
        | ja | jmp cond src =>
            left
            have hsame : fixInsn cooked isMmapped p = some p :=
              fixInsn_other hop rfl Op.noConfusion Op.noConfusion
            rw [hsame] at hpq
            cases hpq
            simp only [filterStep, hf, hg, hop]
        -- a load of a cooked packet has its offset moved, and reads the same there
        | move m =>
            left
            simp only [filterStep, hf, hg, hcode, hop,
              perform_fixed hkernel hop hpq (hport p hf)]

/-- Where every instruction that `bpf_filter` runs is portable, the kernel gives the
verdict of `bpf_filter`. -/
theorem fixProgram_yields (hkernel : KernelLoads payload hdr.protocol wirelen kernel)
    (hfix : fixProgram cooked isMmapped f = some g) {mem : Fin bpfMemwords → UInt32} {x : Result}
    (hport : ∀ s i, (filterStep (presented cooked hdr payload wirelen) f).Leads (.start mem) s →
      f[s.pc]? = some i → Portable cooked i s.regs)
    (hx : (filterStep (presented cooked hdr payload wirelen) f).Yields (.start mem) x) :
    ∃ x', (filterStep kernel g).Yields (.start mem) x' ∧ SameVerdict isMmapped x x' := by
  have hback := hx.rec_back
    (P := fun s => (filterStep (presented cooked hdr payload wirelen) f).Leads (.start mem) s →
      ∃ x', (filterStep kernel g).Yields s x' ∧ SameVerdict isMmapped x x') ?_ ?_
  · exact hback (Machine.Leads.refl _)
  · intro s hs hlead
    rcases step_fixed hkernel hfix (hport s · hlead) with hsame | ⟨y, x', hy, hx', hverdict⟩
    · exact ⟨x, Machine.Yields.halt (hsame.trans hs), .inl rfl⟩
    · rw [hs] at hy
      cases hy
      exact ⟨x', Machine.Yields.halt hx', hverdict⟩
  · intro s s' hs _ ih hlead
    obtain ⟨x', hx', hverdict⟩ := ih (hlead.trans (Machine.Leads.single hs))
    rcases step_fixed hkernel hfix (hport s · hlead) with hsame | ⟨y, _, hy, _, _⟩
    · exact ⟨x', Machine.Yields.next (hsame.trans hs) hx', hverdict⟩
    · rw [hs] at hy
      cases hy

end Fixed

/-- A kernel over a payload that has no other special offsets. -/
def plainKernel (payload : Bytes) (protocol wirelen : UInt32) : Env where
  load size k :=
    if k = skfAdOff + skfAdProtocol then .next protocol else loadPacket payload size k
  wirelen := wirelen

/-- The kernel's loads are of the payload. -/
theorem plainKernel_loads (payload : Bytes) (protocol wirelen : UInt32) :
    KernelLoads payload protocol wirelen (plainKernel payload protocol wirelen) where
  load := by
    intro size k hk
    refine if_neg ?_
    rintro rfl
    exact absurd hk (by decide)
  protocol := by
    intro size
    simp only [plainKernel, if_true]
  wirelen := rfl

/-- IPv4 on a cooked socket. -/
def cookedIpFilter : List Insn :=
  [⟨bpfLd ||| bpfAbs ||| bpfH, 0, 0, 14⟩, ⟨bpfJmp ||| bpfJeq ||| bpfK, 0, 1, 0x800⟩,
    ⟨bpfRet ||| bpfK, 0, 0, 96⟩, ⟨bpfRet ||| bpfK, 0, 0, 0⟩]

/-- The filter for IP is portable. -/
theorem cookedIpFilter_portable (i : Insn) (h : i ∈ cookedIpFilter) (r : Regs) :
    Portable true i r := by
  simp only [cookedIpFilter, List.mem_cons, List.not_mem_nil, or_false] at h
  rcases h with rfl | rfl | rfl | rfl
  · exact .inr ⟨rfl, rfl, rfl⟩
  all_goals exact trivial

end MobiPerf.Capture
