import MobiPerf.SocketProc.IndexInvariant

/-!
# SocketProc.Attribution — whom a packet is charged to

The returned application is that of one entry, reached through the port slot,
the address slot or the search (`ChargedTo`). When the indexes describe the
table each of the three says what the entry has in common with the packet, and,
conversely, when it is the entry a search on the whole tuple would give.
-/

namespace MobiPerf.SocketProc

/-- Protocol, local port and remote end of the entry are the packet's. -/
def Packet.fullMatch (pkt : Packet) (c : ConnInfo) : Bool :=
  c.localPort = pkt.portSlot && pkt.remoteMatch c

theorem Packet.fullMatch_iff {pkt : Packet} {c : ConnInfo} :
    pkt.fullMatch c = true ↔ portKey c = pkt.portSlot ∧ pkt.remoteMatch c = true := by
  simp [Packet.fullMatch, portKey]

/-- An entry with the packet's remote end lies in the packet's address slot. -/
theorem Packet.ipKey_of_remoteMatch {pkt : Packet} {c : ConnInfo}
    (h : pkt.remoteMatch c = true) : ipKey c = pkt.ipSlot := by
  simp only [Packet.remoteMatch, Bool.and_eq_true, decide_eq_true_eq] at h
  unfold ipKey Packet.ipSlot
  rw [h.1.2]

theorem Packet.hostMatch_iff {pkt : Packet} {c : ConnInfo} :
    pkt.hostMatch c = true ↔ c.remoteIP = pkt.remoteIP ∧ c.protocol = pkt.protocol := by
  simp [Packet.hostMatch]

/-! ## Reading a slot -/

/-- A slot that names an entry names the only one with its key. -/
theorem Indexes.entry_of_slot {key : ConnInfo → ℕ} {t : ConnTable} {ix : ConnIndex}
    (h : Indexes key t.entries ix) {k i : ℕ} (hslot : ix.slot k = i) :
    i < t.nConns ∧ key (t.conns i) = k ∧ ∀ j < t.nConns, key (t.conns j) = k → j = i := by
  rcases (h.exact.one_iff k i).mp hslot with ⟨c, hc, hkey, huniq⟩
  rw [ConnTable.getElem?_entries] at hc
  split at hc
  · rename_i hi
    cases hc
    refine ⟨hi, hkey, fun j hj hkey' => huniq j (t.conns j) ?_ hkey'⟩
    rw [ConnTable.getElem?_entries, if_pos hj]
  · cases hc

/-- The slot of an entry's key is not free, so when it names no entry of some
kind although this one is of that kind, the key is shared. -/
theorem Indexes.shared_of_not_named {key : ConnInfo → ℕ} {t : ConnTable} {ix : ConnIndex}
    (h : Indexes key t.entries ix) {k j : ℕ} (hj : j < t.nConns) (hkey : key (t.conns j) = k)
    {P : ConnInfo → Prop} (hP : P (t.conns j))
    (hnot : ∀ i : ℕ, ix.slot k = i → ¬ P (t.conns i)) :
    ix.slot k = -2 ∧ 2 ≤ t.entries.countP fun c => key c = k := by
  have hshared : ix.slot k = -2 := by
    cases hmark : Lib.slotOf (t.entries.map key) k with
    | none =>
        have hfree : ix.slot k = -1 := by rw [h.slot, hmark]; rfl
        have hmem := ConnTable.mem_entries_of_lt (t := t) hj
        exact absurd hkey ((h.exact.none_iff k).mp hfree _ hmem)
    | one i =>
        have hone : ix.slot k = i := by rw [h.slot, hmark]; rfl
        have hji : j = i := (h.entry_of_slot hone).2.2 j hj hkey
        subst hji
        exact absurd hP (hnot j hone)
    | several => rw [h.slot, hmark]; rfl
  exact ⟨hshared, (h.exact.several_iff k).mp hshared⟩

/-! ## The entry charged -/

/-- The call that returned `a` and left `s` charged the packet to entry `i`. -/
structure ChargedTo (pkt : Packet) (s : State) (i : ℕ) (a : Int) : Prop where
  appid : (s.conns i).appid = a
  fresh : (s.conns i).Fresh pkt.curSec
  /-- The search is only made when neither slot names a fresh entry. -/
  path : s.port2connid.slot pkt.portSlot = i ∨ s.ip2connid.slot pkt.ipSlot = i ∨
    (searchForConn s.toConnTable pkt = .ok (some i) ∧
      (∀ j : ℕ, s.port2connid.slot pkt.portSlot = j → ¬ (s.conns j).Fresh pkt.curSec) ∧
      ∀ j : ℕ, s.ip2connid.slot pkt.ipSlot = j → ¬ (s.conns j).Fresh pkt.curSec)

/-- The search reads neither time nor local end of an entry. -/
theorem searchFrom_congr {conns conns' : ℕ → ConnInfo} {pkt : Packet}
    (h : ∀ i, conns' i = { conns i with tvSec := (conns' i).tvSec }) (is : List ℕ)
    (pConn : Option ℕ) : searchFrom conns' pkt is pConn = searchFrom conns pkt is pConn := by
  induction is generalizing pConn with
  | nil => rfl
  | cons i is ih =>
      have happ : (conns' i).appid = (conns i).appid := by rw [h i]
      have hremote : pkt.remoteMatch (conns' i) = pkt.remoteMatch (conns i) := by
        rw [h i]
        rfl
      have hhost : pkt.hostMatch (conns' i) = pkt.hostMatch (conns i) := by
        rw [h i]
        rfl
      simp only [searchFrom, happ, hremote, hhost, ih]

theorem searchForConn_touchConn (pkt : Packet) (i : ℕ) (curSec : Int) (s : State) :
    searchForConn (touchConn i curSec s).toConnTable pkt = searchForConn s.toConnTable pkt :=
  searchFrom_congr (fun j => touchConn_conns i j curSec s) _ _

/-- What a lookup found is charged, if it accepts at least the fresh entries. -/
theorem lookupConn_chargedTo {ok : ConnInfo → Bool} {pkt : Packet} {s : State} {i : ℕ}
    (hok : ∀ c : ConnInfo, c.Fresh pkt.curSec → ok c = true)
    (h : lookupConn ok pkt s = .ok (some i)) :
    ChargedTo pkt (touchConn i pkt.curSec s) i (s.conns i).appid := by
  rcases lookupConn_some h with ⟨hoki, hpath⟩
  -- a slot that is not accepted before the call names no fresh entry after it
  have hstale : ∀ j, ok (s.conns j) = false →
      ¬ ((touchConn i pkt.curSec s).conns j).Fresh pkt.curSec := by
    intro j hj hfresh
    have hne : j ≠ i := by
      rintro rfl
      rw [hoki] at hj
      cases hj
    rw [touchConn_conns_of_ne hne] at hfresh
    rw [hok _ hfresh] at hj
    cases hj
  refine ⟨?_, touchConn_fresh i pkt.curSec s, ?_⟩
  · rw [touchConn_conns_self]
  · rcases hpath with hport | hip | ⟨hport, hip, hsearch⟩
    · exact Or.inl hport
    · exact Or.inr (Or.inl hip)
    · refine Or.inr (Or.inr ⟨?_, fun j hj => hstale j (hport j hj),
        fun j hj => hstale j (hip j hj)⟩)
      rw [searchForConn_touchConn]
      exact hsearch

/-- A call charges the packet to an entry, or returns `-1` after a refresh that
left no entry to charge. -/
theorem updatePacketCore_chargedTo {L : Limits} {fs : ProcFs} {pkt : Packet} {s s' : State}
    {a : Int} (h : updatePacketCore L fs pkt s = .ok (a, s')) :
    (∃ i, ChargedTo pkt s' i a) ∨
      (a = -1 ∧ updateProcessSocketInfo L fs pkt.curSec s = .ok s' ∧
        lookupConn (fun _ => true) pkt s' = .ok none) := by
  rcases updatePacketCore_cases h with ⟨i, hlook, huse⟩ | ⟨s₁, hrefresh, hrest⟩
  · cases huse
    exact Or.inl ⟨i, lookupConn_chargedTo (fun c hc => decide_eq_true hc) hlook⟩
  · rcases hrest with ⟨i, hlook, huse⟩ | ⟨hlook, rfl, rfl⟩
    · cases huse
      exact Or.inl ⟨i, lookupConn_chargedTo (fun _ _ => rfl) hlook⟩
    · exact Or.inr ⟨rfl, hrefresh, hlook⟩

/-! ## Agreement with a search on the whole tuple -/

/-- The packet went to the first entry with its remote end although that entry
has another local port: both the port and the address slot are shared, and the
search compares neither. -/
def OtherPort (pkt : Packet) (s : State) (a : Int) : Prop :=
  2 ≤ (s.entries.countP fun c => portKey c = pkt.portSlot) ∧
    2 ≤ (s.entries.countP fun c => ipKey c = pkt.ipSlot) ∧
    ∃ c, s.entries.find? pkt.remoteMatch = some c ∧ c.localPort ≠ pkt.portSlot ∧
      c.Fresh pkt.curSec ∧ c.appid = a

/-- When the table holds a fresh entry for the whole tuple, the entry charged
is one, or the packet went to another port. -/
theorem ChargedTo.agrees {pkt : Packet} {s : State} {i : ℕ} {a : Int} (h : ChargedTo pkt s i a)
    (hindexed : Indexed s) {j : ℕ} (hj : j < s.nConns) (hfresh : (s.conns j).Fresh pkt.curSec)
    (hmatch : pkt.fullMatch (s.conns j) = true) :
    (i < s.nConns ∧ pkt.fullMatch (s.conns i) = true) ∨ OtherPort pkt s a := by
  rcases Packet.fullMatch_iff.mp hmatch with ⟨hport, hremote⟩
  have hip : ipKey (s.conns j) = pkt.ipSlot := Packet.ipKey_of_remoteMatch hremote
  rcases h.path with hslot | hslot | ⟨hsearch, hportSlot, hipSlot⟩
  · -- the port slot names the only entry with the port
    have hji : j = i := (hindexed.port.entry_of_slot hslot).2.2 j hj hport
    subst hji
    exact Or.inl ⟨hj, hmatch⟩
  · -- the address slot names the only entry with the address hash
    have hji : j = i := (hindexed.ip.entry_of_slot hslot).2.2 j hj hip
    subst hji
    exact Or.inl ⟨hj, hmatch⟩
  · -- neither slot named the fresh entry, so both keys are shared
    have hsharedPort := hindexed.port.shared_of_not_named hj hport
      (P := fun c => c.Fresh pkt.curSec) hfresh hportSlot
    have hsharedIp := hindexed.ip.shared_of_not_named hj hip
      (P := fun c => c.Fresh pkt.curSec) hfresh hipSlot
    rcases searchForConn_first hsearch hj hremote with ⟨i', hi', hlt, hfind⟩
    cases hi'
    by_cases hlocal : (s.conns i).localPort = pkt.portSlot
    · refine Or.inl ⟨hlt, Packet.fullMatch_iff.mpr ⟨hlocal, ?_⟩⟩
      exact List.find?_some hfind
    · exact Or.inr ⟨hsharedPort.2, hsharedIp.2, s.conns i, hfind, hlocal, h.fresh, h.appid⟩

/-- A table with an entry for the packet's remote end and local port always
gives the packet an entry. -/
theorem lookupConn_ne_none {pkt : Packet} {s : State} (hindexed : Indexed s) {j : ℕ}
    (hj : j < s.nConns) (hmatch : pkt.fullMatch (s.conns j) = true) :
    lookupConn (fun _ => true) pkt s ≠ .ok none := by
  intro h
  rcases Packet.fullMatch_iff.mp hmatch with ⟨hport, hremote⟩
  rcases lookupConn_none h with ⟨hslot, hsearch⟩
  have hshared := hindexed.port.shared_of_not_named hj hport (P := fun _ => True) trivial
    (fun i hi => absurd (hslot i hi) (by simp))
  rcases hsearch hshared.1 with ⟨pCI, hcall, hnone⟩
  rcases searchForConn_first hcall hj hremote with ⟨i, rfl, _, _⟩
  exact absurd (hnone i rfl) (by simp)

/-- From every reachable state and for every packet: if on return the table
holds a fresh entry for the packet's tuple, the returned application is that of
such an entry, or that of the first entry with the packet's remote end, at
another local port, with both index slots shared. -/
theorem updatePacketCore_agrees {fs : ProcFs} {pkt : Packet} {s s' : State} {a : Int}
    (hs : (attribution srcLimits).Reachable s)
    (hcall : updatePacketCore srcLimits fs pkt s = .ok (a, s'))
    (hmatch : ∃ c ∈ s'.entries, c.Fresh pkt.curSec ∧ pkt.fullMatch c = true) :
    (∃ c ∈ s'.entries, c.Fresh pkt.curSec ∧ pkt.fullMatch c = true ∧ c.appid = a) ∨
      OtherPort pkt s' a := by
  have htables : TablesOk srcLimits s :=
    reachable_tablesOk (by decide) hs
  rcases hmatch with ⟨c, hc, hfresh, hfull⟩
  rcases ConnTable.mem_entries.mp hc with ⟨j, hj, rfl⟩
  -- the table is not empty, so the indexes describe it
  have hindexed : Indexed s' := by
    rcases (updatePacketCore_tablesOk (by decide) htables hcall).1.indexed with h | h
    · exact h
    · omega
  rcases updatePacketCore_chargedTo hcall with ⟨i, hcharged⟩ | ⟨_, _, hnone⟩
  · rcases hcharged.agrees hindexed hj hfresh hfull with ⟨hi, hfull'⟩ | hother
    · left
      exact ⟨s'.conns i, ConnTable.mem_entries_of_lt (t := s'.toConnTable) hi, hcharged.fresh,
        hfull', hcharged.appid⟩
    · exact Or.inr hother
  · exact absurd hnone (lookupConn_ne_none hindexed hj hfull)

/-- The second socket's packet finds its entry behind that of the first. -/
theorem updatePacketCore_agrees_twoSockets :
    ∃ s s' a, (attribution srcLimits).step (.packet oneSocket oneSocketPacket)
        State.started = some s ∧
      updatePacketCore srcLimits twoSockets secondSocketPacket s = .ok (a, s') ∧
      s'.nConns = 2 ∧
      ((∃ c ∈ s'.entries, c.Fresh secondSocketPacket.curSec ∧
          secondSocketPacket.fullMatch c = true ∧ c.appid = a) ∨
        OtherPort secondSocketPacket s' a) := by
  have hrun : ((attribution srcLimits).step (.packet oneSocket oneSocketPacket)
      State.started).any (fun s =>
        (updatePacketCore srcLimits twoSockets secondSocketPacket s).toOption.any (fun r =>
          r.2.nConns = 2 ∧ ∃ c ∈ r.2.entries, c.Fresh secondSocketPacket.curSec ∧
            secondSocketPacket.fullMatch c = true)) := by decide +kernel
  rcases (Option.any_eq_true _ _).mp hrun with ⟨s, hstep, hs⟩
  rcases Lib.exists_ok_of_any hs with ⟨⟨a, s'⟩, hcall, hr⟩
  rcases of_decide_eq_true hr with ⟨hn, hmatch⟩
  have hreach : (attribution srcLimits).Reachable s :=
    (Lib.System.ReachableBy.init (init_started srcLimits)).tail
      (i := .packet oneSocket oneSocketPacket) trivial hstep
  exact ⟨s, s', a, hstep, hcall, hn, updatePacketCore_agrees hreach hcall hmatch⟩

/-- Two applications with a connection each to one server, and a UDP socket on
the second one's port. -/
def sharedServer : ProcFs :=
  ProcFs.ofSockets
    ["0 0100007F:7D0 2C2BB20A:50 0 0 0 0 0 0 1", "1 0100007F:3E8 2C2BB20A:50 0 0 0 0 0 0 2"]
    ["0 0100007F:3E8 01010101:35 0 0 0 0 0 0 3"]
    [(1, "a", ["1", "3"]), (2, "b", ["2"])]

/-- A packet of the second application's connection. -/
def sharedServerPacket : Packet :=
  { localPort := 0x3E8, localIP := 0x0100007F, remotePort := 0x50, remoteIP := 0x2C2BB20A
    protocol := protTcp, curSec := 100 }

/-- It is charged to the first application: the entry for its tuple is not the
first one with its remote end. -/
theorem not_agrees_sharedServer :
    ¬ ∀ (fs : ProcFs) (pkt : Packet) (s s' : State) (a : Int),
      (attribution srcLimits).Reachable s →
      updatePacketCore srcLimits fs pkt s = .ok (a, s') →
      (∃ c ∈ s'.entries, c.Fresh pkt.curSec ∧ pkt.fullMatch c = true) →
      ∃ c ∈ s'.entries, c.Fresh pkt.curSec ∧ pkt.fullMatch c = true ∧ c.appid = a := by
  intro hall
  have hrun : (updatePacketCore srcLimits sharedServer sharedServerPacket
      State.started).toOption.any (fun r =>
        (∃ c ∈ r.2.entries, c.Fresh sharedServerPacket.curSec ∧
          sharedServerPacket.fullMatch c = true) ∧
        ∀ c ∈ r.2.entries, sharedServerPacket.fullMatch c = true → c.appid ≠ r.1) := by
    decide +kernel
  rcases Lib.exists_ok_of_any hrun with ⟨⟨a, s'⟩, hcall, hr⟩
  rcases of_decide_eq_true hr with ⟨hmatch, hother⟩
  obtain ⟨c, hc, _, hfull, happ⟩ := hall _ _ _ _ _
    (Lib.System.ReachableBy.init (init_started srcLimits)) hcall hmatch
  exact hother c hc hfull happ

/-! ## Soundness -/

/-- The table was emptied by a restart and the indexes still name its entries. -/
def Leftover (s : State) : Prop :=
  s.nConns = 0 ∧ (s.port2connid.setList ≠ [] ∨ s.ip2connid.setList ≠ [])

/-- Otherwise the indexes of a reachable state describe the table. -/
theorem TablesOk.indexed_of_not_leftover {L : Limits} {s : State} (h : TablesOk L s)
    (hleft : ¬ Leftover s) : Indexed s := by
  rcases h.indexed with hindexed | hn
  · exact hindexed
  · have hfree : ∀ (ix : ConnIndex), (∀ k, ix.slot k ≠ -1 → k ∈ ix.setList) → ix.setList = [] →
        ix = ConnIndex.unused := by
      intro ix hundo hset
      have hslot : ix.slot = fun _ => -1 := by
        funext k
        by_contra hk
        have hmem := hundo k hk
        rw [hset] at hmem
        exact absurd hmem List.not_mem_nil
      cases ix
      simp only at hslot hset
      rw [hslot, hset]
      rfl
    have hport : s.port2connid.setList = [] := by
      by_contra hne
      exact hleft ⟨hn, Or.inl hne⟩
    have hip : s.ip2connid.setList = [] := by
      by_contra hne
      exact hleft ⟨hn, Or.inr hne⟩
    exact indexed_of_unused hn (hfree _ h.undoable.1 hport) (hfree _ h.undoable.2 hip)

/-- From every reachable state whose indexes are not left over from an emptied
table, an application that is returned is that of an entry which is the only
one with the packet's local port, or the only one with its address hash, or has
its protocol and remote address. -/
theorem updatePacketCore_sound {fs : ProcFs} {pkt : Packet} {s s' : State} {a : Int}
    (hs : (attribution srcLimits).Reachable s) (hleft : ¬ Leftover s)
    (hcall : updatePacketCore srcLimits fs pkt s = .ok (a, s')) (ha : 0 ≤ a) :
    ∃ c ∈ s'.entries, c.appid = a ∧
      ((portKey c = pkt.portSlot ∧ ∀ c' ∈ s'.entries, portKey c' = pkt.portSlot → c' = c) ∨
        (ipKey c = pkt.ipSlot ∧ ∀ c' ∈ s'.entries, ipKey c' = pkt.ipSlot → c' = c) ∨
        (c.protocol = pkt.protocol ∧ c.remoteIP = pkt.remoteIP)) := by
  have htables : TablesOk srcLimits s := reachable_tablesOk (by decide) hs
  have hindexed : Indexed s' := (updatePacketCore_tablesOk (by decide) htables hcall).2
    (htables.indexed_of_not_leftover hleft)
  -- an entry that is alone with its key by position is alone with it by value
  have honly : ∀ {key : ConnInfo → ℕ} {k i : ℕ},
      (∀ j < s'.nConns, key (s'.conns j) = k → j = i) →
      ∀ c' ∈ s'.entries, key c' = k → c' = s'.conns i := by
    intro key k i huniq c' hc' hkey
    rcases ConnTable.mem_entries.mp hc' with ⟨j, hj, rfl⟩
    rw [huniq j hj hkey]
  rcases updatePacketCore_chargedTo hcall with ⟨i, hcharged⟩ | ⟨hneg, _, _⟩
  · rcases hcharged.path with hslot | hslot | ⟨hsearch, _, _⟩
    · rcases hindexed.port.entry_of_slot hslot with ⟨hi, hkey, huniq⟩
      exact ⟨s'.conns i, ConnTable.mem_entries_of_lt (t := s'.toConnTable) hi, hcharged.appid,
        Or.inl ⟨hkey, honly huniq⟩⟩
    · rcases hindexed.ip.entry_of_slot hslot with ⟨hi, hkey, huniq⟩
      exact ⟨s'.conns i, ConnTable.mem_entries_of_lt (t := s'.toConnTable) hi, hcharged.appid,
        Or.inr (Or.inl ⟨hkey, honly huniq⟩)⟩
    · rcases searchForConn_some hsearch with ⟨hi, hhost⟩
      rcases Packet.hostMatch_iff.mp hhost with ⟨hip, hprot⟩
      exact ⟨s'.conns i, ConnTable.mem_entries_of_lt (t := s'.toConnTable) hi, hcharged.appid,
        Or.inr (Or.inr ⟨hprot, hip⟩)⟩
  · omega

/-- The second socket's packet is charged to its application, the first one's
entry being in the table as well. -/
theorem updatePacketCore_sound_twoSockets :
    ∃ s s', (attribution srcLimits).step (.packet oneSocket oneSocketPacket)
        State.started = some s ∧
      updatePacketCore srcLimits twoSockets secondSocketPacket s = .ok (1, s') ∧
      s'.nConns = 2 ∧
      ∃ c ∈ s'.entries, c.appid = 1 ∧
        ((portKey c = 0x1A ∧ ∀ c' ∈ s'.entries, portKey c' = 0x1A → c' = c) ∨
          (ipKey c = secondSocketPacket.ipSlot ∧
            ∀ c' ∈ s'.entries, ipKey c' = secondSocketPacket.ipSlot → c' = c) ∨
          (c.protocol = protTcp ∧ c.remoteIP = 0x2C2BB20A)) := by
  have hrun : ((attribution srcLimits).step (.packet oneSocket oneSocketPacket)
      State.started).any (fun s => s.nConns = 1 ∧
        (updatePacketCore srcLimits twoSockets secondSocketPacket s).toOption.any (fun r =>
          r.1 = 1 ∧ r.2.nConns = 2)) := by decide +kernel
  rcases (Option.any_eq_true _ _).mp hrun with ⟨s, hstep, hs⟩
  rcases of_decide_eq_true hs with ⟨hone, hcalls⟩
  rcases Lib.exists_ok_of_any hcalls with ⟨⟨a, s'⟩, hcall, hr⟩
  rcases of_decide_eq_true hr with ⟨ha, hn⟩
  have ha : a = 1 := ha
  subst ha
  have hreach : (attribution srcLimits).Reachable s :=
    (Lib.System.ReachableBy.init (init_started srcLimits)).tail
      (i := .packet oneSocket oneSocketPacket) trivial hstep
  have hleft : ¬ Leftover s := by
    rintro ⟨hzero, _⟩
    omega
  exact ⟨s, s', hstep, hcall, hn, updatePacketCore_sound hreach hleft hcall (by decide)⟩

/-- One process with one UDP socket on port 0x19. -/
def oneUdpSocket : ProcFs :=
  ProcFs.ofSockets [] ["0 0100007F:19 01010101:35 0 0 0 0 0 0 7"] [(5, "a", ["7"])]

/-- The TCP packet on the same port is charged to the owner of the UDP socket. -/
theorem not_sound_oneUdpSocket :
    ¬ ∀ (fs : ProcFs) (pkt : Packet) (s s' : State) (a : Int),
      (attribution srcLimits).Reachable s →
      updatePacketCore srcLimits fs pkt s = .ok (a, s') → 0 ≤ a →
      ∃ c ∈ s'.entries, c.appid = a ∧ c.protocol = pkt.protocol ∧
        (c.localPort = pkt.portSlot ∨ c.remoteIP = pkt.remoteIP) := by
  intro hall
  have hrun : (updatePacketCore srcLimits oneUdpSocket oneSocketPacket
      State.started).toOption.any (fun r => 0 ≤ r.1 ∧
        ∀ c ∈ r.2.entries, c.protocol ≠ oneSocketPacket.protocol) := by decide +kernel
  rcases Lib.exists_ok_of_any hrun with ⟨⟨a, s'⟩, hcall, hr⟩
  rcases of_decide_eq_true hr with ⟨ha, hother⟩
  obtain ⟨c, hc, _, hprot, _⟩ := hall _ _ _ _ _
    (Lib.System.ReachableBy.init (init_started srcLimits)) hcall ha
  exact hother c hc hprot

end MobiPerf.SocketProc
