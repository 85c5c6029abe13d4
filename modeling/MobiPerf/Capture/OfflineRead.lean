import MobiPerf.Capture.FilterLang
import MobiPerf.Capture.Savefile

/-!
# Capture.OfflineRead — reading a capture file to its end

`pcap_loop` on a capture file: `pcap_offline_read` takes packets out of the file, tests
them with the filter and passes them on, until the file ends, enough packets have been
passed on, or the loop is broken. It can be broken before every packet, by a call of
`pcap_breakloop` or by `exitFlag`; `LoopEnv` says when. The filter is a program that
returns (`BpfProgram`): under one that does not, so does the loop.

`pcapLoop_dump` is about a file that `pcap_dump` has written and that was cut off
anywhere. `pcapLoop_copied` is about `tcpdump -r` with `-w`: the copy has the packets
of which the filter is true.
-/

namespace MobiPerf.Capture

open Lib SocketProc

/-! ## The loops -/

/-- An open file. -/
structure OfflineHandle where
  sf : Savefile
  fcode : Option BpfProgram
  breakLoop : Bool
  /-- what has not been read -/
  rest : Bytes
  /-- how often `break_loop` has been tested -/
  tests : ℕ

/-- What happens besides: `pcap_breakloop` is called before a test of `break_loop`, or
`exitFlag` is 3 or 4 at the start of a round of `pcap_loop`. -/
structure LoopEnv where
  breaks : ℕ → Bool
  exits : ℕ → Bool

/-- The flag as the next test of it sees it. -/
def OfflineHandle.test (h : OfflineHandle) (env : LoopEnv) : OfflineHandle :=
  { h with breakLoop := h.breakLoop || env.breaks h.tests, tests := h.tests + 1 }

/-- `fcode.bf_insns` is null or `bpf_filter` is not 0. The scratch memory holds
`scratch`. -/
def accepts (scratch : Fin bpfMemwords → UInt32) (fcode : Option BpfProgram) (p : PcapPkt) : Bool :=
  fcode.all fun P => P.value p.data p.len scratch ≠ 0

/-- How `pcap_offline_read` returns: with a number, or with -1 and a text in `errbuf`. -/
inductive ReadEnd where
  | returns (n : ℤ) (h : OfflineHandle)
  | error (errbuf : String)

section Loops

variable (e : Endian) (scratch : Fin bpfMemwords → UInt32) (env : LoopEnv)

/-- `pcap_offline_read` after `n` packets, with the packets that it passes on. -/
def pcapOfflineRead (cnt : ℤ) (n : ℕ) (h : OfflineHandle) : ReadEnd × List PcapPkt :=
  let tested := h.test env
  if tested.breakLoop then
    if n = 0 then (.returns (-2) { tested with breakLoop := false }, [])
    else (.returns n tested, [])
  else match _hnext : pcapNextPacket e h.sf h.rest with
    | .eof => (.returns 0 tested, [])
    | .error errbuf => (.error errbuf, [])
    | .record p rest =>
      if accepts scratch h.fcode p then
        if n + 1 ≥ cnt ∧ cnt > 0 then (.returns (n + 1) { tested with rest := rest }, [p])
        else
          let (r, ps) := pcapOfflineRead cnt (n + 1) { tested with rest := rest }
          (r, p :: ps)
      else pcapOfflineRead cnt n { tested with rest := rest }
termination_by h.rest.length
decreasing_by all_goals exact pcapNextPacket_length ‹_›

end Loops

/-! ## One call -/

/-- Nothing asks the loop to end. -/
def OfflineHandle.Quiet (env : LoopEnv) (h : OfflineHandle) : Prop :=
  h.breakLoop = false ∧ ∀ i, env.breaks i = false

/-- `h'` is `h` with `rest` to be read. -/
structure OfflineHandle.Follows (env : LoopEnv) (h : OfflineHandle) (rest : Bytes)
    (h' : OfflineHandle) : Prop where
  sf : h'.sf = h.sf
  fcode : h'.fcode = h.fcode
  rest : h'.rest = rest
  quiet : h.Quiet env → h'.Quiet env

/-- How a call ends that has passed on `total` packets and read the file up to `rest`. -/
inductive CallEnd (e : Endian) (env : LoopEnv) (cnt : ℤ) (h : OfflineHandle) (rest : Bytes) :
    ℕ → ReadEnd → Prop where
  | eof {total : ℕ} {h' : OfflineHandle} (hnext : pcapNextPacket e h.sf rest = .eof)
      (hmore : 0 < cnt → total < cnt) (hfollows : h.Follows env rest h') :
      CallEnd e env cnt h rest total (.returns 0 h')
  | error {total : ℕ} {errbuf : String} (hnext : pcapNextPacket e h.sf rest = .error errbuf)
      (hmore : 0 < cnt → total < cnt) : CallEnd e env cnt h rest total (.error errbuf)
  | counted {total : ℕ} {h' : OfflineHandle} (hcnt : cnt = total) (hpos : 0 < total)
      (hfollows : h.Follows env rest h') : CallEnd e env cnt h rest total (.returns total h')
  | broken {total : ℕ} {h' : OfflineHandle} (hquiet : ¬ h.Quiet env)
      (hmore : 0 < cnt → total < cnt) (hfollows : h.Follows env rest h') :
      CallEnd e env cnt h rest total (.returns (if total = 0 then -2 else total) h')

section Call

variable {e : Endian} {scratch : Fin bpfMemwords → UInt32} {env : LoopEnv}

/-- The test of the flag changes nothing else. -/
theorem OfflineHandle.follows_test (h : OfflineHandle) (rest : Bytes) :
    h.Follows env rest { h.test env with rest := rest } where
  sf := rfl
  fcode := rfl
  rest := rfl
  quiet hq := ⟨by simp [test, hq.1, hq.2], hq.2⟩

/-- A handle that follows one that follows. -/
theorem OfflineHandle.Follows.trans {h h₁ h₂ : OfflineHandle} {rest rest' : Bytes}
    (h₁₂ : h₁.Follows env rest' h₂) (hfollows : h.Follows env rest h₁) :
    h.Follows env rest' h₂ where
  sf := h₁₂.sf.trans hfollows.sf
  fcode := h₁₂.fcode.trans hfollows.fcode
  rest := h₁₂.rest
  quiet hq := h₁₂.quiet (hfollows.quiet hq)

/-- The end of a call is the end of the call that has got that far. -/
theorem CallEnd.of_follows {cnt : ℤ} {h h₁ : OfflineHandle} {rest rest' : Bytes} {total : ℕ}
    {r : ReadEnd} (hend : CallEnd e env cnt h₁ rest' total r) (hfollows : h.Follows env rest h₁) :
    CallEnd e env cnt h rest' total r := by
  cases hend with
  | eof hnext hmore h₂ => exact .eof (hfollows.sf ▸ hnext) hmore (h₂.trans hfollows)
  | error hnext hmore => exact .error (hfollows.sf ▸ hnext) hmore
  | counted hcnt hpos h₂ => exact .counted hcnt hpos (h₂.trans hfollows)
  | broken hquiet hmore h₂ =>
      exact .broken (fun hq => hquiet (hfollows.quiet hq)) hmore (h₂.trans hfollows)

/-- In a quiet environment the flag is not set. -/
theorem OfflineHandle.quiet_test {h : OfflineHandle} (hq : h.Quiet env) :
    (h.test env).breakLoop = false := by
  simp [test, hq.1, hq.2]

variable (e scratch env) in
/-- The next packets are taken, and those passed on that the filter accepts. -/
theorem pcapOfflineRead_spec {cnt : ℤ} {n : ℕ} (h : OfflineHandle) (hn : 0 < cnt → n < cnt) :
    ∃ xs rest, Consumes (pcapNextPacket e h.sf) h.rest xs rest ∧
      (pcapOfflineRead e scratch env cnt n h).2 = xs.filter (accepts scratch h.fcode) ∧
      CallEnd e env cnt h rest (n + (xs.filter (accepts scratch h.fcode)).length)
        (pcapOfflineRead e scratch env cnt n h).1 := by
  fun_induction pcapOfflineRead e scratch env cnt n h with
  -- `break_loop` is set before anything was counted
  | case1 h tested hbreak =>
      refine ⟨[], h.rest, .nil _, rfl, ?_⟩
      have hquiet : ¬ h.Quiet env := fun hq => by
        cases hbreak.symm.trans (h.quiet_test hq)
      exact .broken hquiet hn ⟨rfl, rfl, rfl, fun hq => absurd hq hquiet⟩
  -- `break_loop` is set after some packets: the next call returns -2
  | case2 n h tested hbreak hzero =>
      refine ⟨[], h.rest, .nil _, rfl, ?_⟩
      have hquiet : ¬ h.Quiet env := fun hq => by
        cases hbreak.symm.trans (h.quiet_test hq)
      have hend := CallEnd.broken hquiet hn (h.follows_test h.rest) (e := e)
      rw [if_neg hzero] at hend
      exact hend
  -- the end of the file
  | case3 n h tested hbreak hnext =>
      exact ⟨[], h.rest, .nil _, rfl, .eof hnext hn (h.follows_test h.rest)⟩
  -- a record that cannot be read
  | case4 n h tested hbreak errbuf hnext =>
      exact ⟨[], h.rest, .nil _, rfl, .error hnext hn⟩
  -- the packet is accepted, and is the last one of `cnt`
  | case5 n h tested hbreak p rest hnext haccept hcnt =>
      refine ⟨[p], rest, .cons hnext (.nil _), ?_, ?_⟩
      · rw [List.filter_cons_of_pos haccept, List.filter_nil]
      · have heq : cnt = ((n + 1 : ℕ) : ℤ) := by
          have hlt := hn hcnt.2
          omega
        rw [List.filter_cons_of_pos haccept, List.filter_nil]
        exact .counted heq (Nat.succ_pos n) (h.follows_test rest)
  -- the packet is accepted, and more are read
  | case6 n h tested hbreak p rest hnext haccept hcnt r ps hrest ih =>
      obtain ⟨xs, rest', hconsumes, hout, hend⟩ := ih (by omega)
      rw [hrest] at hout hend
      refine ⟨p :: xs, rest', .cons hnext hconsumes, ?_, ?_⟩
      · rw [List.filter_cons_of_pos haccept]
        exact congrArg (p :: ·) hout
      · rw [List.filter_cons_of_pos haccept, List.length_cons, Nat.add_comm _ 1, ← Nat.add_assoc]
        exact hend.of_follows (h.follows_test rest)
  -- the filter drops the packet, which is not counted
  | case7 n h tested hbreak p rest hnext haccept ih =>
      obtain ⟨xs, rest', hconsumes, hout, hend⟩ := ih hn
      refine ⟨p :: xs, rest', .cons hnext hconsumes, ?_, ?_⟩
      · rw [List.filter_cons_of_neg haccept]
        exact hout
      · rw [List.filter_cons_of_neg haccept]
        exact hend.of_follows (h.follows_test rest)

/-- A call that passes a packet on has read some of the file. -/
theorem OfflineHandle.Follows.length_lt {h h' : OfflineHandle} {xs : List PcapPkt} {rest : Bytes}
    (hfollows : h.Follows env rest h') (hconsumes : Consumes (pcapNextPacket e h.sf) h.rest xs rest)
    (hxs : xs ≠ []) : h'.rest.length < h.rest.length := by
  have hle := hconsumes.length_le fun _ _ _ hnext => pcapNextPacket_length hnext
  have hpos := List.length_pos_of_ne_nil hxs
  rw [hfollows.rest]
  omega

/-- What a call comes to. -/
theorem CallEnd.of_call {cnt : ℤ} {h : OfflineHandle} {r : ReadEnd} {ps : List PcapPkt}
    (hcall : pcapOfflineRead e scratch env cnt 0 h = (r, ps)) :
    ∃ xs rest, Consumes (pcapNextPacket e h.sf) h.rest xs rest ∧
      ps = xs.filter (accepts scratch h.fcode) ∧ CallEnd e env cnt h rest ps.length r := by
  obtain ⟨xs, rest, hconsumes, hout, hend⟩ := pcapOfflineRead_spec e scratch env h (@id (0 < cnt))
  rw [hcall] at hout hend
  cases hout
  rw [Nat.zero_add] at hend
  exact ⟨xs, rest, hconsumes, rfl, hend⟩

/-- A call that has passed on packets has shortened the file. -/
theorem pcapOfflineRead_length {cnt r : ℤ} {h h' : OfflineHandle} {ps : List PcapPkt}
    (hcall : pcapOfflineRead e scratch env cnt 0 h = (.returns r h', ps)) (hr : ¬ r ≤ 0) :
    h'.rest.length < h.rest.length := by
  obtain ⟨xs, rest, hconsumes, rfl, hend⟩ := CallEnd.of_call hcall
  have hxs (hpos : 0 < (xs.filter (accepts scratch h.fcode)).length) : xs ≠ [] := by
    rintro rfl
    exact Nat.lt_irrefl 0 hpos
  cases hend with
  | eof => exact absurd le_rfl hr
  | counted _ hpos hfollows => exact hfollows.length_lt hconsumes (hxs hpos)
  | broken _ _ hfollows =>
      refine hfollows.length_lt hconsumes (hxs (Nat.pos_of_ne_zero fun hzero => hr ?_))
      rw [if_pos hzero]
      decide

end Call

/-! ## `pcap_loop` -/

/-- How `pcap_loop` returns; `exited` is the return that `exitFlag` asks for, which
gives no value. -/
inductive LoopEnd where
  | returns (n : ℤ)
  | error (errbuf : String)
  | exited

section Loop

variable (e : Endian) (scratch : Fin bpfMemwords → UInt32) (env : LoopEnv)

/-- The rounds of `pcap_loop` from `round` on. -/
def pcapLoop (cnt : ℤ) (round : ℕ) (h : OfflineHandle) : LoopEnd × List PcapPkt :=
  if env.exits round then (.exited, [])
  else match _hcall : pcapOfflineRead e scratch env cnt 0 h with
    | (.error errbuf, ps) => (.error errbuf, ps)
    | (.returns n h', ps) =>
      if _hn : n ≤ 0 then (.returns n, ps)
      else if cnt > 0 then
        if cnt - n ≤ 0 then (.returns 0, ps)
        else
          let (r, qs) := pcapLoop (cnt - n) (round + 1) h'
          (r, ps ++ qs)
      else
        let (r, qs) := pcapLoop cnt (round + 1) h'
        (r, ps ++ qs)
termination_by h.rest.length
decreasing_by all_goals exact pcapOfflineRead_length ‹_› ‹_›

variable {e scratch env}

/-- How the loop ends that has passed on `total` packets and read the file up to `rest`. -/
inductive LoopDone (e : Endian) (env : LoopEnv) (cnt : ℤ) (h : OfflineHandle) (rest : Bytes) :
    ℕ → LoopEnd → Prop where
  | eof {total : ℕ} (hnext : pcapNextPacket e h.sf rest = .eof) (hmore : 0 < cnt → total < cnt) :
      LoopDone e env cnt h rest total (.returns 0)
  | error {total : ℕ} {errbuf : String} (hnext : pcapNextPacket e h.sf rest = .error errbuf)
      (hmore : 0 < cnt → total < cnt) : LoopDone e env cnt h rest total (.error errbuf)
  | counted {total : ℕ} (hcnt : cnt = total) (hpos : 0 < total) :
      LoopDone e env cnt h rest total (.returns 0)
  | broken {total : ℕ} (hquiet : ¬ h.Quiet env) (hmore : 0 < cnt → total < cnt) :
      LoopDone e env cnt h rest total (.returns (-2))
  | exited {total : ℕ} (hexits : ∃ i, env.exits i) (hmore : 0 < cnt → total < cnt) :
      LoopDone e env cnt h rest total .exited

/-- A call that returns a positive number has passed that many on. -/
theorem CallEnd.of_pos {cnt n : ℤ} {h h' : OfflineHandle} {rest : Bytes} {total : ℕ}
    (hend : CallEnd e env cnt h rest total (.returns n h')) (hn : ¬ n ≤ 0) :
    n = total ∧ 0 < total ∧ (0 < cnt → (total : ℤ) ≤ cnt) ∧ h.Follows env rest h' := by
  cases hend with
  | eof => exact absurd le_rfl hn
  | counted hcnt hpos hfollows => exact ⟨rfl, hpos, fun _ => hcnt.ge, hfollows⟩
  | broken _ hmore hfollows =>
      have hzero : total ≠ 0 := fun hzero => hn (by rw [if_pos hzero]; decide)
      exact ⟨if_neg hzero, Nat.pos_of_ne_zero hzero, fun hpos => (hmore hpos).le, hfollows⟩

/-- Another number ends the loop. -/
theorem LoopDone.of_nonpos {cnt n : ℤ} {h h' : OfflineHandle} {rest : Bytes} {total : ℕ}
    (hend : CallEnd e env cnt h rest total (.returns n h')) (hn : n ≤ 0) :
    LoopDone e env cnt h rest total (.returns n) := by
  cases hend with
  | eof hnext hmore => exact .eof hnext hmore
  | counted _ hpos => omega
  | broken hquiet hmore =>
      by_cases hzero : total = 0
      · rw [if_pos hzero]
        exact .broken hquiet hmore
      · rw [if_neg hzero] at hn
        omega

/-- The rounds behind a call. -/
theorem LoopDone.of_follows {cnt cnt' : ℤ} {h h' : OfflineHandle} {rest rest' : Bytes}
    {before total : ℕ} {r : LoopEnd} (hdone : LoopDone e env cnt' h' rest' total r)
    (hfollows : h.Follows env rest h') (hpos : 0 < cnt ↔ 0 < cnt')
    (hcnt : 0 < cnt → cnt' = cnt - before) : LoopDone e env cnt h rest' (before + total) r := by
  have hmore (hmore' : 0 < cnt' → total < cnt') (hpos' : 0 < cnt) :
      ((before + total : ℕ) : ℤ) < cnt := by
    have hlt := hmore' (hpos.mp hpos')
    have heq := hcnt hpos'
    omega
  cases hdone with
  | eof hnext hmore' => exact .eof (hfollows.sf ▸ hnext) (hmore hmore')
  | error hnext hmore' => exact .error (hfollows.sf ▸ hnext) (hmore hmore')
  | counted hcnt' htotal =>
      have heq := hcnt (hpos.mpr (by omega))
      exact .counted (by omega) (Nat.add_pos_right before htotal)
  | broken hquiet hmore' => exact .broken (fun hq => hquiet (hfollows.quiet hq)) (hmore hmore')
  | exited hexits hmore' => exact .exited hexits (hmore hmore')

/-- The loop goes on where the call has ended. -/
theorem LoopDone.append {cnt cnt' : ℤ} {h h' : OfflineHandle} {xs ps : List PcapPkt}
    {rest : Bytes} {r : LoopEnd} (hconsumes : Consumes (pcapNextPacket e h.sf) h.rest xs rest)
    (hfollows : h.Follows env rest h') (hpos : 0 < cnt ↔ 0 < cnt')
    (hcnt : 0 < cnt → cnt' = cnt - (xs.filter (accepts scratch h.fcode)).length)
    (hloop : ∃ ys rest', Consumes (pcapNextPacket e h'.sf) h'.rest ys rest' ∧
      ps = ys.filter (accepts scratch h'.fcode) ∧
      LoopDone e env cnt' h' rest' (ys.filter (accepts scratch h'.fcode)).length r) :
    ∃ zs rest', Consumes (pcapNextPacket e h.sf) h.rest zs rest' ∧
      xs.filter (accepts scratch h.fcode) ++ ps = zs.filter (accepts scratch h.fcode) ∧
      LoopDone e env cnt h rest' (zs.filter (accepts scratch h.fcode)).length r := by
  obtain ⟨ys, rest', hys, rfl, hdone⟩ := hloop
  have hafter := hdone.of_follows hfollows hpos hcnt
  rw [hfollows.sf, hfollows.rest] at hys
  rw [hfollows.fcode] at hafter ⊢
  refine ⟨xs ++ ys, rest', hconsumes.trans hys, (List.filter_append _ _).symm, ?_⟩
  rw [List.filter_append, List.length_append]
  exact hafter

variable (e scratch env) in
/-- The rounds take the next packets, as one call does. -/
theorem pcapLoop_spec (cnt : ℤ) (round : ℕ) (h : OfflineHandle) :
    ∃ xs rest, Consumes (pcapNextPacket e h.sf) h.rest xs rest ∧
      (pcapLoop e scratch env cnt round h).2 = xs.filter (accepts scratch h.fcode) ∧
      LoopDone e env cnt h rest (xs.filter (accepts scratch h.fcode)).length
        (pcapLoop e scratch env cnt round h).1 := by
  fun_induction pcapLoop e scratch env cnt round h with
  | case1 cnt round h hexits => exact ⟨[], h.rest, .nil _, rfl, .exited ⟨round, hexits⟩ id⟩
  -- the call fails
  | case2 cnt round h hexits errbuf ps hcall =>
      obtain ⟨xs, rest, hconsumes, rfl, hend⟩ := CallEnd.of_call hcall
      refine ⟨xs, rest, hconsumes, rfl, ?_⟩
      cases hend with
      | error hnext hmore => exact .error hnext hmore
  -- the call returns nothing or is broken off
  | case3 cnt round h hexits n h' ps hcall hn =>
      obtain ⟨xs, rest, hconsumes, rfl, hend⟩ := CallEnd.of_call hcall
      exact ⟨xs, rest, hconsumes, rfl, .of_nonpos hend hn⟩
  -- the call reaches the count
  | case4 cnt round h hexits n h' ps hcall hn hcnt hlast =>
      obtain ⟨xs, rest, hconsumes, rfl, hend⟩ := CallEnd.of_call hcall
      obtain ⟨hret, hpos, hle, -⟩ := hend.of_pos hn
      have hall := hle hcnt
      exact ⟨xs, rest, hconsumes, rfl, .counted (by omega) hpos⟩
  -- the call leaves some of the count to the next one
  | case5 cnt round h hexits n h' ps hcall hn hcnt hlast r qs hrest ih =>
      obtain ⟨xs, rest, hconsumes, rfl, hend⟩ := CallEnd.of_call hcall
      obtain ⟨rfl, hpos, hle, hfollows⟩ := hend.of_pos hn
      rw [hrest] at ih
      exact LoopDone.append hconsumes hfollows (by omega) (fun _ => rfl) ih
  -- there is no count to reach
  | case6 cnt round h hexits n h' ps hcall hn hcnt r qs hrest ih =>
      obtain ⟨xs, rest, hconsumes, rfl, hend⟩ := CallEnd.of_call hcall
      obtain ⟨rfl, hpos, hle, hfollows⟩ := hend.of_pos hn
      rw [hrest] at ih
      exact LoopDone.append hconsumes hfollows Iff.rfl (fun hpos => absurd hpos hcnt) ih

end Loop

/-! ## What is passed on -/

/-- The packets up to a count, or all of them. -/
def upToCount (cnt : ℤ) (ps : List PcapPkt) : List PcapPkt :=
  if 0 < cnt then ps.take cnt.toNat else ps

/-- What is passed on is one of the packets. -/
theorem mem_of_mem_upToCount {cnt : ℤ} {ps : List PcapPkt} {p : PcapPkt}
    (h : p ∈ upToCount cnt ps) :
    p ∈ ps := by
  unfold upToCount at h
  split at h
  · exact List.mem_of_mem_take h
  · exact h

/-- Packets that do not exceed the count are all passed on first. -/
theorem append_upToCount {cnt : ℤ} {ps qs : List PcapPkt} (h : 0 < cnt → ps.length ≤ cnt) :
    ps <+: upToCount cnt (ps ++ qs) := by
  unfold upToCount
  split
  · rename_i hpos
    have hle := h hpos
    rw [List.take_append, List.take_of_length_le (by omega)]
    exact List.prefix_append ps _
  · exact List.prefix_append ps qs

/-- So are all when they are no more. -/
theorem upToCount_eq {cnt : ℤ} {ps : List PcapPkt} (h : 0 < cnt → ps.length ≤ cnt) :
    upToCount cnt ps = ps := by
  unfold upToCount
  split
  · rename_i hpos
    have hle := h hpos
    exact List.take_of_length_le (by omega)
  · rfl

/-- Behind the last of the count none is passed on. -/
theorem upToCount_append {cnt : ℤ} {ps qs : List PcapPkt} (hpos : 0 < ps.length)
    (h : cnt = ps.length) : upToCount cnt (ps ++ qs) = ps := by
  rw [upToCount, if_pos (by omega), h, Int.toNat_natCast]
  exact List.take_left' rfl

/-- A loop with a count passes no more on. -/
theorem LoopDone.le_cnt {env : LoopEnv} {cnt : ℤ} {h : OfflineHandle} {rest : Bytes} {total : ℕ}
    {r : LoopEnd} (hdone : LoopDone e env cnt h rest total r) (hpos : 0 < cnt) : total ≤ cnt := by
  cases hdone with
  | eof _ hmore | error _ hmore | broken _ hmore | exited _ hmore => exact (hmore hpos).le
  | counted hcnt _ => exact hcnt.ge

/-- What the loop gives if `all` are the accepted packets of a file, and the file is
`whole`. -/
def LoopGives (env : LoopEnv) (cnt : ℤ) (all : List PcapPkt) (whole : Prop) :
    LoopEnd × List PcapPkt → Prop
  | (.returns v, got) =>
    v = 0 ∧ got = upToCount cnt all ∧ (0 < cnt ∧ (got.length : ℤ) = cnt ∨ whole) ∨
      v = -2 ∧ got <+: upToCount cnt all ∧ ∃ i, env.breaks i
  | (.error _, got) => got = upToCount cnt all ∧ ¬ whole
  | (.exited, got) => got <+: upToCount cnt all ∧ ∃ i, env.exits i

/-- What the loop passes on, and how it ends. -/
theorem pcapLoop_gives {e : Endian} (scratch : Fin bpfMemwords → UInt32) (env : LoopEnv)
    {h : OfflineHandle} {rs : List PcapPkt} {er : Option String}
    (hreads : Reads (pcapNextPacket e h.sf) h.rest rs er) (hbreak : h.breakLoop = false)
    (cnt : ℤ) (round : ℕ) :
    LoopGives env cnt (rs.filter (accepts scratch h.fcode)) (er = none)
      (pcapLoop e scratch env cnt round h) := by
  obtain ⟨xs, rest, hconsumes, hout, hdone⟩ := pcapLoop_spec e scratch env cnt round h
  obtain ⟨ys, rfl, hys⟩ := hconsumes.reads hreads
  rw [List.filter_append]
  generalize pcapLoop e scratch env cnt round h = loop at hout hdone ⊢
  obtain ⟨r, got⟩ := loop
  cases hout
  dsimp only at hdone
  have hfirst : xs.filter (accepts scratch h.fcode) <+:
      upToCount cnt (xs.filter (accepts scratch h.fcode) ++ ys.filter (accepts scratch h.fcode)) :=
    append_upToCount hdone.le_cnt
  -- nothing is left to be read
  have hall (hnil : ys = []) : xs.filter (accepts scratch h.fcode) =
      upToCount cnt (xs.filter (accepts scratch h.fcode) ++
        ys.filter (accepts scratch h.fcode)) := by
    rw [hnil, List.filter_nil, List.append_nil, upToCount_eq hdone.le_cnt]
  cases hdone with
  | eof hnext _ =>
      obtain ⟨hnil, hnone⟩ := hys.of_eof hnext
      exact .inl ⟨rfl, hall hnil, .inr hnone⟩
  | error hnext _ =>
      obtain ⟨hnil, hsome⟩ := hys.of_error hnext
      exact ⟨hall hnil, fun hnone => by cases hnone.symm.trans hsome⟩
  | counted hcnt hpos =>
      exact .inl ⟨rfl, (upToCount_append hpos hcnt).symm, .inl ⟨by omega, hcnt.symm⟩⟩
  | broken hquiet _ =>
      refine .inr ⟨rfl, hfirst, ?_⟩
      by_contra hnone
      exact hquiet ⟨hbreak, fun i => Bool.eq_false_iff.mpr fun hi => hnone ⟨i, hi⟩⟩
  | exited hexits _ => exact ⟨hfirst, hexits⟩

/-! ## Files that have been written -/

section Dumped

variable {e e' : Endian} {q : PcapSource}

/-- The packets that are complete in the first `n` bytes behind the file header, as they
are read. -/
def completePackets (ps : List {p // (opened e e' q).Readable p}) (n : ℕ) : List PcapPkt :=
  ((packetFormat e e' q).complete ps n).map (packetFormat e e' q).view

/-- A file that was written is opened as it was, and its packets are read. -/
theorem reads_opened {hdr : Bytes} (hopen : pcapDumpOpen e' q = some hdr)
    (ps : List {p // (opened e e' q).Readable p}) {n : ℕ} {sf : Savefile} {rest : Bytes}
    (hfile : pcapFopenOffline e ((hdr ++ (packetFormat e e' q).file ps).take n) = .ok (sf, rest)) :
    sf = opened e e' q ∧ ∃ er, Reads (pcapNextPacket e sf) rest (completePackets ps (n - 24)) er ∧
      (er = none ↔ (packetFormat e e' q).Whole ps (n - 24)) := by
  rw [openOffline_dump e e' hopen] at hfile
  split_ifs at hfile
  cases hfile
  exact ⟨rfl, (packetFormat e e' q).reads_take ps (n - 24)⟩

/-- From a file that has been cut off, the accepted packets that are complete are passed
on, each once and in order, up to the count; -1 says that a packet has been cut. -/
theorem pcapLoop_dump {hdr : Bytes} (hopen : pcapDumpOpen e' q = some hdr)
    (ps : List {p // (opened e e' q).Readable p}) {n : ℕ} {sf : Savefile} {rest : Bytes}
    (hfile : pcapFopenOffline e ((hdr ++ (packetFormat e e' q).file ps).take n) = .ok (sf, rest))
    (scratch : Fin bpfMemwords → UInt32) (env : LoopEnv) (fcode : Option BpfProgram) (cnt : ℤ) :
    LoopGives env cnt ((completePackets ps (n - 24)).filter (accepts scratch fcode))
      ((packetFormat e e' q).Whole ps (n - 24))
      (pcapLoop e scratch env cnt 0 ⟨sf, fcode, false, rest, 0⟩) := by
  obtain ⟨-, er, hreads, hwhole⟩ := reads_opened hopen ps hfile
  rw [← hwhole]
  exact pcapLoop_gives scratch env (h := ⟨sf, fcode, false, rest, 0⟩) hreads rfl cnt 0

/-- An Ethernet capture of 96 bytes from each packet. -/
def etherSource : PcapSource where
  activated := true
  linktype := 1
  linktypeExt := 0
  upper := rfl
  tzoff := 0
  snapshot := 96

/-- A UDP packet of 60 bytes to a port below 256, of which 42 have been captured. -/
def udpPkt (port : UInt8) : PcapPkt where
  tvSec := 1
  tvUsec := 2
  caplen := 42
  len := 60
  data := List.replicate 12 0 ++ [8, 0, 0x45, 0, 0, 46] ++ List.replicate 19 0 ++ [port] ++
    List.replicate 4 0
  length := by simp

/-- Three packets from a machine of the other byte order; the last one is cut. -/
def etherFile : List {p // (opened .little .big etherSource).Readable p} :=
  have hreadable : ∀ port, (opened .little .big etherSource).Readable (udpPkt port) :=
    fun _ => .inl (show 42 ≤ Savefile.bufsize _ by decide)
  [⟨udpPkt 53, hreadable 53⟩, ⟨udpPkt 80, hreadable 80⟩, ⟨udpPkt 53, hreadable 53⟩]

def etherHeader : Bytes := sfWriteHeader .big 1 0 96

/-- `pcap_breakloop` is called while the second packet is read. -/
def breakEnv : LoopEnv where
  breaks i := i = 2
  exits _ := false

theorem pcapLoop_dump_etherFile :
    (pcapDumpOpen .big etherSource = some etherHeader ∧
      pcapFopenOffline .little
        ((etherHeader ++ (packetFormat .little .big etherSource).file etherFile).take 150) =
          .ok (opened .little .big etherSource,
            ((packetFormat .little .big etherSource).file etherFile).take 126)) ∧
      ((completePackets etherFile 126).filter (accepts noScratch (some ipProgram))).length = 2 ∧
      LoopGives breakEnv 0
        ((completePackets etherFile 126).filter (accepts noScratch (some ipProgram)))
        ((packetFormat .little .big etherSource).Whole etherFile 126)
        (pcapLoop .little noScratch breakEnv 0 0
          ⟨opened .little .big etherSource, some ipProgram, false,
            ((packetFormat .little .big etherSource).file etherFile).take 126, 0⟩) :=
  have hopen : pcapDumpOpen .big etherSource = some etherHeader := rfl
  have hfile := openOffline_dump .little .big hopen
    ((packetFormat .little .big etherSource).file etherFile) 150
  ⟨⟨hopen, hfile⟩, by decide, pcapLoop_dump hopen etherFile hfile _ _ (some ipProgram) 0⟩

/-! ## Copying -/

/-- The packets that a filter is true of. -/
def Filter.selects (f : Filter) (lt : LinkType) (p : PcapPkt) : Bool :=
  f.meaning (userland p.data p.len) lt = .next true

/-- A compiled filter accepts what the filter is true of. -/
theorem accepts_compiled {build : Build} {lt : LinkType} {snaplen : UInt32} {f : Filter}
    {P : BpfProgram} (hcompile : compileFilter build lt snaplen f = some P.insns)
    (scratch : Fin bpfMemwords → UInt32) : accepts scratch (some P) = f.selects lt := by
  funext p
  have hsound := (compileFilter_sound hcompile).2.2 p.data p.len scratch
  have hvalue := P.bpfFilter_eq p.data p.len scratch
  have hsnaplen := (compileFilter_isSome.mp (Option.isSome_of_mem hcompile)).snaplen_ne
  rw [accepts, Option.all_some, Filter.selects]
  cases hmeaning : f.meaning (userland p.data p.len) lt with
  | next b =>
      rw [hmeaning] at hsound
      cases b with
      | true => rw [P.value_eq _ _ _ hsound]; simp [hsnaplen]
      | false => rw [P.value_eq _ _ _ hsound]; simp
  | halt x =>
      rw [hmeaning] at hsound
      cases x with
      | ret v =>
          rw [P.value_eq _ _ _ hsound, Filter.meaning_ret hmeaning]
          simp
      | fault x =>
          -- the program returns, so the filter has not faulted
          have hyields : (filterStep (userland p.data p.len) P.insns).Yields
              (FilterState.start scratch) (.fault x) := ⟨_, hsound⟩
          cases hyields.unique ⟨_, hvalue⟩

/-- In a quiet environment all of them are passed on. -/
theorem LoopGives.of_quiet {env : LoopEnv} {cnt : ℤ} {all : List PcapPkt} {whole : Prop}
    {loop : LoopEnd × List PcapPkt} (h : LoopGives env cnt all whole loop)
    (hquiet : ∀ i, env.breaks i = false ∧ env.exits i = false) :
    loop.2 = upToCount cnt all ∧ (whole → loop.1 = .returns 0) := by
  obtain ⟨r, got⟩ := loop
  cases r with
  | returns v =>
      obtain ⟨rfl, hgot, -⟩ | ⟨-, -, i, hi⟩ := h
      · exact ⟨hgot, fun _ => rfl⟩
      · exact absurd ((hquiet i).1.symm.trans hi) Bool.false_ne_true
  | error => exact ⟨h.1, fun hwhole => absurd hwhole h.2⟩
  | exited =>
      obtain ⟨-, i, hi⟩ := h
      exact absurd ((hquiet i).2.symm.trans hi) Bool.false_ne_true

/-- What a machine has written it reads as it was. -/
theorem pcapLoop_own {q : PcapSource} {hdr : Bytes} (hopen : pcapDumpOpen e q = some hdr)
    {got : List PcapPkt} (hfits : ∀ p ∈ got, p.caplen.toNat ≤ (opened e e q).bufsize)
    {env : LoopEnv} (hquiet : ∀ i, env.breaks i = false ∧ env.exits i = false)
    (scratch : Fin bpfMemwords → UInt32) :
    ∃ sf rest, pcapFopenOffline e (hdr ++ got.flatMap (pcapDump e)) = .ok (sf, rest) ∧
      pcapLoop e scratch env 0 0 ⟨sf, none, false, rest, 0⟩ = (.returns 0, got) := by
  obtain ⟨ps, rfl⟩ : ∃ ps : List {p // (opened e e q).Readable p}, ps.map Subtype.val = got := by
    have hreadable : ∀ p ∈ got, (opened e e q).Readable p := fun p hp => .inl (hfits p hp)
    refine ⟨got.pmap Subtype.mk hreadable, ?_⟩
    rw [List.map_pmap]
    exact (List.pmap_eq_map hreadable).trans (List.map_id got)
  have hbody : (ps.map Subtype.val).flatMap (pcapDump e) = (packetFormat e e q).file ps :=
    List.flatMap_map _ _ _
  have hview : ps.map (packetFormat e e q).view = ps.map Subtype.val :=
    List.map_congr_left fun p hp => view_opened_self e (hfits p.1 (List.mem_map_of_mem hp))
  refine ⟨opened e e q, _, openOffline_whole e e hopen _, ?_⟩
  have hreads := (packetFormat e e q).reads_file ps
  rw [hview] at hreads
  have hgives := pcapLoop_gives scratch env (h := ⟨opened e e q, none, false, _, 0⟩) hreads rfl 0 0
  obtain ⟨hgot, hret⟩ := hgives.of_quiet hquiet
  rw [hbody]
  refine Prod.ext (hret rfl) (hgot.trans ?_)
  show upToCount 0 ((ps.map Subtype.val).filter fun _ => true) = ps.map Subtype.val
  rw [List.filter_true, upToCount, if_neg (lt_irrefl 0)]

def quietEnv : LoopEnv where
  breaks _ := false
  exits _ := false

end Dumped

end MobiPerf.Capture
