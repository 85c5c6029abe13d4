import MobiPerf.Lib.Transition
import MobiPerf.SocketProc.Table

/-!
# SocketProc.Packet — attributing a packet, and the runs of a capture

`UpdatePacket_Core` looks a packet up three ways: by local port, by hashed
remote address, and by a search of the table when one of the two is shared.
It does so twice, first accepting fresh entries only and then, after a refresh
of the tables, any entry; `lookupConn` is that block with the acceptance test
as a parameter.

The runs of a capture are the runs of `attribution`: the first `StartCapture`,
then packets and bearer-change restarts in any order, with any contents of
`/proc` and any packet times.
-/

namespace MobiPerf.SocketProc

/-- The arguments of `UpdatePacket_Core`; the ports come from the 16-bit header
fields. -/
structure Packet where
  localPort : WORD
  localIP : DWORD
  remotePort : WORD
  remoteIP : DWORD
  protocol : ℕ
  curSec : Int
deriving DecidableEq, Repr

/-- The slot of a packet in `port2connid`. -/
def Packet.portSlot (pkt : Packet) : ℕ := pkt.localPort.toNat

/-- The slot of a packet in `ip2connid`. -/
def Packet.ipSlot (pkt : Packet) : ℕ := (ipHash pkt.remoteIP).toNat

/-- Same remote end and protocol: the test on which `SearchForConn` returns. -/
def Packet.remoteMatch (pkt : Packet) (c : ConnInfo) : Bool :=
  c.remotePort = pkt.remotePort.toNat && c.remoteIP = pkt.remoteIP && c.protocol = pkt.protocol

/-- Same remote host and protocol: its second choice. -/
def Packet.hostMatch (pkt : Packet) (c : ConnInfo) : Bool :=
  c.remoteIP = pkt.remoteIP && c.protocol = pkt.protocol

/-! ## Lookup -/

/-- The loop of `SearchForConn`: the first entry with the packet's remote end,
else the last one with its remote host. The comparisons with the local port are
commented out in the source. -/
def searchFrom (conns : ℕ → ConnInfo) (pkt : Packet) :
    List ℕ → Option ℕ → Except Halt (Option ℕ)
  | [], pConn => .ok pConn
  | i :: is, pConn =>
    if (conns i).appid = -1 then
      .error (.exit "Invalid connection entry with appid=-1")
    else if pkt.remoteMatch (conns i) then .ok (some i)
    else searchFrom conns pkt is (if pkt.hostMatch (conns i) then some i else pConn)

/-- `SearchForConn`, the entry found given by its index. -/
def searchForConn (t : ConnTable) (pkt : Packet) : Except Halt (Option ℕ) :=
  searchFrom t.conns pkt (List.range t.nConns) none

/-- The entry a packet is charged to, among those `ok` accepts. -/
def lookupConn (ok : ConnInfo → Bool) (pkt : Packet) (s : State) : Except Halt (Option ℕ) :=
  let cid1 := s.port2connid.slot pkt.portSlot
  if 0 ≤ cid1 ∧ ok (s.conns cid1.toNat) then .ok (some cid1.toNat)
  else
    let cid2 := s.ip2connid.slot pkt.ipSlot
    if 0 ≤ cid2 ∧ ok (s.conns cid2.toNat) then .ok (some cid2.toNat)
    else if cid1 = -2 ∨ cid2 = -2 then do
      let pCI ← searchForConn s.toConnTable pkt
      .ok (pCI.filter fun i => ok (s.conns i))
    else .ok none

/-- `conns[i].tv_sec = curSec`. -/
def touchConn (i : ℕ) (curSec : Int) (s : State) : State :=
  { s with conns := Function.update s.conns i { s.conns i with tvSec := curSec } }

/-- Using entry `i`: its time is set and its application returned. -/
def useConn (i : ℕ) (curSec : Int) (s : State) : Int × State :=
  ((s.conns i).appid, touchConn i curSec s)

/-- `UpdatePacket_Core`. -/
def updatePacketCore (L : Limits) (fs : ProcFs) (pkt : Packet) (s : State) :
    Except Halt (Int × State) := do
  match ← lookupConn (fun c => c.Fresh pkt.curSec) pkt s with
  | some i => .ok (useConn i pkt.curSec s)
  | none =>
    let s ← updateProcessSocketInfo L fs pkt.curSec s
    match ← lookupConn (fun _ => true) pkt s with
    | some i => .ok (useConn i pkt.curSec s)
    | none => .ok (-1, s)

/-! ## Starting a capture -/

/-- `StartCapture`. `opens` tells which files `fopen` opens; the trace files
are named relative to the capture directory. The connection table is always
emptied, the index tables and the application dictionary only when the bearer
has not changed. -/
def startCapture (opens : String → Bool) (s : State) : Except Halt State :=
  let s := { s with exitFlag := 0 }
  if ! opens "/proc/uptime" then .error (.exit "Failed to sync time")
  else
    let s := { s with nConns := 0 }
    if s.bearerChangedvalue = 0 then
      match ["time", "processed_events", "appid", "appname"].find? fun f => ! opens f with
      | some f => .error (.exit ("Cannot write " ++ f))
      | none =>
        .ok { s with
          pcapFilename := "traffic.cap"
          port2connid := ConnIndex.unused
          ip2connid := ConnIndex.unused
          nApps := 0
          ppApps := fun _ => []
          appNames := [] }
    else
      .ok { s with pcapFilename := "traffic" ++ toString s.bearerChangedvalue ++ ".cap" }

/-- What happens to the tables during a capture. -/
inductive Event where
  | restart (opens : String → Bool)
  | packet (fs : ProcFs) (pkt : Packet)

/-- One event; a run that halts has no next state. -/
def step (L : Limits) : Event → State → Option State
  | .restart opens, s =>
    (startCapture opens { s with bearerChangedvalue := s.bearerChangedvalue + 1 }).toOption
  | .packet fs pkt, s => ((updatePacketCore L fs pkt s).map Prod.snd).toOption

/-- The runs of a capture over the given array sizes. -/
def attribution (L : Limits) : Lib.System State Event where
  Init s := ∃ opens, startCapture opens State.zero = .ok s
  step := step L

/-- The state after a first start that opens all its files. -/
def State.started : State :=
  { State.zero with
    port2connid := ConnIndex.unused
    ip2connid := ConnIndex.unused
    pcapFilename := "traffic.cap" }

theorem init_started (L : Limits) : (attribution L).Init State.started :=
  ⟨fun _ => true, rfl⟩

theorem attribution_step (L : Limits) : (attribution L).step = step L := rfl

/-! ## What each operation can do -/

/-- The three ways a packet is charged to an entry. -/
theorem lookupConn_some {ok : ConnInfo → Bool} {pkt : Packet} {s : State} {i : ℕ}
    (h : lookupConn ok pkt s = .ok (some i)) :
    ok (s.conns i) = true ∧
      (s.port2connid.slot pkt.portSlot = i ∨
        s.ip2connid.slot pkt.ipSlot = i ∨
        ((∀ j : ℕ, s.port2connid.slot pkt.portSlot = j → ok (s.conns j) = false) ∧
          (∀ j : ℕ, s.ip2connid.slot pkt.ipSlot = j → ok (s.conns j) = false) ∧
          searchForConn s.toConnTable pkt = .ok (some i))) := by
  unfold lookupConn at h
  dsimp only at h
  -- the index of ports, the index of addresses, and then the scan
  split at h
  · rename_i hport
    cases h
    exact ⟨hport.2, Or.inl (Int.toNat_of_nonneg hport.1).symm⟩
  · rename_i hport
    split at h
    · rename_i hip
      cases h
      exact ⟨hip.2, Or.inr (Or.inl (Int.toNat_of_nonneg hip.1).symm)⟩
    · rename_i hip
      split at h
      · rcases Lib.except_bind_eq_ok.mp h with ⟨pCI, hsearch, h⟩
        have hfilter : pCI.filter (fun i => ok (s.conns i)) = some i := Except.ok.inj h
        rcases Option.filter_eq_some_iff.mp hfilter with ⟨rfl, hok⟩
        refine ⟨hok, Or.inr (Or.inr ⟨fun j hj => ?_, fun j hj => ?_, hsearch⟩)⟩
        · rw [hj] at hport
          simpa using hport
        · rw [hj] at hip
          simpa using hip
      · cases h

/-- A packet that is charged to no entry: neither slot leads to an accepted
one, and the search, if made, found none that is. -/
theorem lookupConn_none {ok : ConnInfo → Bool} {pkt : Packet} {s : State}
    (h : lookupConn ok pkt s = .ok none) :
    (∀ j : ℕ, s.port2connid.slot pkt.portSlot = j → ok (s.conns j) = false) ∧
      (s.port2connid.slot pkt.portSlot = -2 →
        ∃ pCI, searchForConn s.toConnTable pkt = .ok pCI ∧
          ∀ i, pCI = some i → ok (s.conns i) = false) := by
  unfold lookupConn at h
  dsimp only at h
  split at h
  · cases h
  · rename_i hport
    have hslot : ∀ j : ℕ, s.port2connid.slot pkt.portSlot = j → ok (s.conns j) = false := by
      intro j hj
      rw [hj] at hport
      simpa using hport
    refine ⟨hslot, fun hshared => ?_⟩
    split at h
    · cases h
    · rw [if_pos (Or.inl hshared)] at h
      rcases Lib.except_bind_eq_ok.mp h with ⟨pCI, hsearch, h⟩
      have hfilter : pCI.filter (fun i => ok (s.conns i)) = none := Except.ok.inj h
      refine ⟨pCI, hsearch, ?_⟩
      rintro i rfl
      simpa [Option.filter] using hfilter

/-- A call that returned: a fresh entry was used, or the tables were refreshed
and an entry was used or none found. -/
theorem updatePacketCore_cases {L : Limits} {fs : ProcFs} {pkt : Packet} {s s' : State} {a : Int}
    (h : updatePacketCore L fs pkt s = .ok (a, s')) :
    (∃ i, lookupConn (fun c => c.Fresh pkt.curSec) pkt s = .ok (some i) ∧
        (a, s') = useConn i pkt.curSec s) ∨
      ∃ s₁, updateProcessSocketInfo L fs pkt.curSec s = .ok s₁ ∧
        ((∃ i, lookupConn (fun _ => true) pkt s₁ = .ok (some i) ∧
            (a, s') = useConn i pkt.curSec s₁) ∨
          (lookupConn (fun _ => true) pkt s₁ = .ok none ∧ a = -1 ∧ s' = s₁)) := by
  unfold updatePacketCore at h
  rcases Lib.except_bind_eq_ok.mp h with ⟨hit, hlook, h⟩
  cases hit with
  | some i =>
      left
      exact ⟨i, hlook, (Except.ok.inj h).symm⟩
  | none =>
      right
      rcases Lib.except_bind_eq_ok.mp h with ⟨s₁, hrefresh, h⟩
      rcases Lib.except_bind_eq_ok.mp h with ⟨hit, hlook₁, h⟩
      refine ⟨s₁, hrefresh, ?_⟩
      cases hit with
      | some i =>
          left
          exact ⟨i, hlook₁, (Except.ok.inj h).symm⟩
      | none =>
          right
          have heq : (-1, s₁) = (a, s') := Except.ok.inj h
          cases heq
          exact ⟨hlook₁, rfl, rfl⟩

/-- A first start leaves both index tables unused and the table empty; a
restart only empties the table. -/
theorem startCapture_cases {opens : String → Bool} {s s' : State}
    (h : startCapture opens s = .ok s') :
    s'.nConns = 0 ∧ s'.bearerChangedvalue = s.bearerChangedvalue ∧
      ((s.bearerChangedvalue = 0 ∧ s'.port2connid = ConnIndex.unused ∧
          s'.ip2connid = ConnIndex.unused) ∨
        (s.bearerChangedvalue ≠ 0 ∧ s'.port2connid = s.port2connid ∧
          s'.ip2connid = s.ip2connid)) := by
  unfold startCapture at h
  dsimp only at h
  split at h
  · cases h
  · split at h
    · rename_i hbearer
      split at h
      · cases h
      · cases h
        exact ⟨rfl, rfl, Or.inl ⟨hbearer, rfl, rfl⟩⟩
    · rename_i hbearer
      cases h
      exact ⟨rfl, rfl, Or.inr ⟨hbearer, rfl, rfl⟩⟩

/-- The labels of the transition system, read as calls. -/
theorem step_packet {L : Limits} {fs : ProcFs} {pkt : Packet} {s s' : State} :
    step L (.packet fs pkt) s = some s' ↔ ∃ a, updatePacketCore L fs pkt s = .ok (a, s') := by
  unfold step
  dsimp only
  generalize updatePacketCore L fs pkt s = r
  cases r with
  | error e => simp [Except.map, Except.toOption]
  | ok r => simp [Except.map, Except.toOption, Prod.ext_iff]

theorem step_restart {L : Limits} {opens : String → Bool} {s s' : State} :
    step L (.restart opens) s = some s' ↔
      startCapture opens { s with bearerChangedvalue := s.bearerChangedvalue + 1 } = .ok s' := by
  unfold step
  dsimp only
  generalize startCapture opens _ = r
  cases r with
  | error e => simp [Except.toOption]
  | ok r => simp [Except.toOption]

/-! ## What a search finds -/

/-- A search that returned gave the first entry with the packet's remote end,
when there is one; what it gives always has the packet's remote host. -/
theorem searchFrom_spec {conns : ℕ → ConnInfo} {pkt : Packet} {is : List ℕ}
    {pConn r : Option ℕ} (h : searchFrom conns pkt is pConn = .ok r) :
    (∀ i, is.find? (fun i => pkt.remoteMatch (conns i)) = some i → r = some i) ∧
      (∀ i, r = some i → i ∈ is ∧ pkt.hostMatch (conns i) = true ∨ pConn = some i) := by
  induction is generalizing pConn with
  | nil =>
      cases h
      exact ⟨by simp, fun i hi => Or.inr hi⟩
  | cons j js ih =>
      unfold searchFrom at h
      split at h
      · cases h
      · -- the first full match ends the scan
        split at h
        · rename_i hmatch
          cases h
          refine ⟨fun i hi => by simpa [hmatch] using hi, fun i hi => Or.inl ?_⟩
          cases hi
          refine ⟨List.mem_cons_self, ?_⟩
          simp only [Packet.remoteMatch, Packet.hostMatch, Bool.and_eq_true] at hmatch ⊢
          exact ⟨hmatch.1.2, hmatch.2⟩
        · -- a match of the host only is kept until one of the whole tuple is found
          rename_i hmatch
          rcases ih h with ⟨hfirst, hfrom⟩
          refine ⟨fun i hi => hfirst i (by simpa [hmatch] using hi), fun i hi => ?_⟩
          rcases hfrom i hi with ⟨hmem, hhost⟩ | hkeep
          · exact Or.inl ⟨List.mem_cons_of_mem j hmem, hhost⟩
          · split at hkeep
            · rename_i hhost
              cases hkeep
              exact Or.inl ⟨List.mem_cons_self, hhost⟩
            · exact Or.inr hkeep

/-- An entry `SearchForConn` gives is in the table and has the packet's remote
host and protocol. -/
theorem searchForConn_some {t : ConnTable} {pkt : Packet} {i : ℕ}
    (h : searchForConn t pkt = .ok (some i)) :
    i < t.nConns ∧ pkt.hostMatch (t.conns i) = true := by
  rcases (searchFrom_spec h).2 i rfl with ⟨hmem, hhost⟩ | hnone
  · exact ⟨List.mem_range.mp hmem, hhost⟩
  · cases hnone

/-- When an entry has the packet's remote end, `SearchForConn` gives the first
one that does. -/
theorem searchForConn_first {t : ConnTable} {pkt : Packet} {r : Option ℕ} {j : ℕ}
    (h : searchForConn t pkt = .ok r) (hj : j < t.nConns)
    (hmatch : pkt.remoteMatch (t.conns j) = true) :
    ∃ i, r = some i ∧ i < t.nConns ∧
      t.entries.find? pkt.remoteMatch = some (t.conns i) := by
  have hsome : ((List.range t.nConns).find? fun i => pkt.remoteMatch (t.conns i)).isSome := by
    rw [List.find?_isSome]
    exact ⟨j, List.mem_range.mpr hj, hmatch⟩
  rcases Option.isSome_iff_exists.mp hsome with ⟨i, hi⟩
  refine ⟨i, (searchFrom_spec h).1 i hi, List.mem_range.mp (List.mem_of_find?_eq_some hi), ?_⟩
  unfold ConnTable.entries
  rw [List.find?_map, Function.comp_def, hi]
  rfl

/-! ## What using an entry leaves -/

/-- Only the time of an entry changes. -/
theorem touchConn_conns (i j : ℕ) (curSec : Int) (s : State) :
    (touchConn i curSec s).conns j =
      { s.conns j with tvSec := ((touchConn i curSec s).conns j).tvSec } := by
  unfold touchConn
  by_cases h : j = i
  · subst h
    simp
  · simp [Function.update_of_ne h]

theorem touchConn_conns_self (i : ℕ) (curSec : Int) (s : State) :
    (touchConn i curSec s).conns i = { s.conns i with tvSec := curSec } := by
  simp [touchConn]

theorem touchConn_conns_of_ne {i j : ℕ} (h : j ≠ i) (curSec : Int) (s : State) :
    (touchConn i curSec s).conns j = s.conns j := by
  simp [touchConn, Function.update_of_ne h]

/-- The used entry is fresh. -/
theorem touchConn_fresh (i : ℕ) (curSec : Int) (s : State) :
    ((touchConn i curSec s).conns i).Fresh curSec := by
  rw [touchConn_conns_self]
  show curSec < curSec + timeout
  unfold timeout
  omega

/-- Whatever does not look at the times reads the same table. -/
theorem touchConn_entries_map {β : Type} {f : ConnInfo → β}
    (hf : ∀ c t, f { c with tvSec := t } = f c) (i : ℕ) (curSec : Int) (s : State) :
    (touchConn i curSec s).entries.map f = s.entries.map f := by
  unfold ConnTable.entries
  rw [List.map_map, List.map_map]
  refine List.map_congr_left fun j _ => ?_
  show f ((touchConn i curSec s).conns j) = f (s.conns j)
  rw [touchConn_conns, hf]

theorem touchConn_indexes {key : ConnInfo → ℕ} (hf : ∀ c t, key { c with tvSec := t } = key c)
    (i : ℕ) (curSec : Int) {s : State} {ix : ConnIndex} (h : Indexes key s.entries ix) :
    Indexes key (touchConn i curSec s).entries ix where
  slot := by
    rw [touchConn_entries_map hf]
    exact h.slot
  setList := by
    rw [touchConn_entries_map hf]
    exact h.setList

theorem touchConn_indexed (i : ℕ) (curSec : Int) {s : State} (h : Indexed s) :
    Indexed (touchConn i curSec s) where
  port := touchConn_indexes (fun _ _ => rfl) i curSec h.port
  ip := touchConn_indexes (fun _ _ => rfl) i curSec h.ip
  appid := by
    intro c hc
    rcases ConnTable.mem_entries.mp hc with ⟨j, hj, rfl⟩
    rw [touchConn_conns]
    exact h.appid (s.conns j) (ConnTable.mem_entries_of_lt (t := s.toConnTable) hj)

end MobiPerf.SocketProc
