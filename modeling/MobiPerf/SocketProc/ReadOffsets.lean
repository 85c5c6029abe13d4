import MobiPerf.SocketProc.Header

/-!
# SocketProc.ReadOffsets — which bytes of the buffer decide the app id

The read operations hand `UpdatePacket` the buffer but not the captured length.
What follows the captured bytes is left from earlier packets.

* `recvInto_sameBelow`: after the same packet two buffers agree on the captured
  bytes, and on nothing else.
* `updatePacket_eq_of_bytesRead`: the call depends on the bytes listed in
  `bytesRead` only.
* `updatePacket_captured_iff`: exactly when it depends on captured bytes only,
  and exactly when it reads captured bytes only.
-/

namespace MobiPerf.SocketProc

/-! ## The captured bytes -/

/-- The buffers agree on their first `caplen` bytes. -/
def SameBelow (caplen : ℕ) (sp sp' : ℕ → BYTE) : Prop := ∀ i < caplen, sp i = sp' i

/-- The buffer of the handle after `recvfrom(fd, bp + offset, bufsize - offset,
MSG_TRUNC)`: a packet overwrites as many bytes as it has and as fit. -/
def recvInto (bufsize offset : ℕ) (packet : Bytes) (bp : ℕ → BYTE) (i : ℕ) : BYTE :=
  if offset ≤ i ∧ i < bufsize then (packet[i - offset]?).getD (bp i) else bp i

/-- `caplen` of `pcap_read_packet`; the length `recvfrom` returns is that of the
packet on the wire. -/
def capturedLength (snapshot offset : ℕ) (packet : Bytes) : ℕ :=
  min (packet.length + offset) snapshot

/-- The cooked header before `offset` apart, the captured bytes are the packet's. -/
theorem recvInto_sameBelow {bufsize snapshot offset : ℕ} {packet : Bytes} {bp bp' : ℕ → BYTE}
    (hsize : snapshot ≤ bufsize) (hhead : SameBelow offset bp bp') :
    SameBelow (capturedLength snapshot offset packet) (recvInto bufsize offset packet bp)
      (recvInto bufsize offset packet bp') := by
  intro i hi
  unfold capturedLength at hi
  unfold recvInto
  by_cases hoff : offset ≤ i
  · have hlt : i - offset < packet.length := by omega
    rw [if_pos ⟨hoff, by omega⟩, if_pos ⟨hoff, by omega⟩, List.getElem?_eq_getElem hlt]
    rfl
  · rw [if_neg (by omega), if_neg (by omega)]
    exact hhead i (by omega)

/-! ## The bytes read -/

/-- The offsets read of the IP header at `ip` and of the ports behind it. -/
def ipBytesRead (sp : ℕ → BYTE) (ip : ℕ) : List ℕ :=
  (ip + 9) ::
    if isTransport sp ip then
      [ip + 12, ip + 13, ip + 14, ip + 15, ip + 16, ip + 17, ip + 18, ip + 19, ip,
        portOffset sp ip, portOffset sp ip + 1, portOffset sp ip + 2, portOffset sp ip + 3]
    else []

/-- The offsets `UpdatePacket` reads, in order. -/
def bytesRead (captureMode : ℕ) (sp : ℕ → BYTE) (currentInterface : String) (bCooked : Bool) :
    List ℕ :=
  if captureMode ≠ capLinuxMmap ∧ captureMode ≠ capLinuxStandard then []
  else if currentInterface = "vsnet0" then
    0 :: if sp 0 = 0x45 then ipBytesRead sp 0 else []
  else
    let base := if bCooked then 2 else 0
    (base + 12) :: (base + 13) ::
      if readWord sp (base + 12) = 0x0008 then ipBytesRead sp (base + 14) else []

/-- The protocol is one byte. -/
theorem isTransport_congr {sp sp' : ℕ → BYTE} {ip : ℕ} (h : sp (ip + 9) = sp' (ip + 9)) :
    isTransport sp ip ↔ isTransport sp' ip := by
  unfold isTransport
  rw [h]

theorem readWord_congr {sp sp' : ℕ → BYTE} {i : ℕ} (h : sp i = sp' i)
    (h' : sp (i + 1) = sp' (i + 1)) : readWord sp i = readWord sp' i := by
  unfold readWord
  rw [h, h']

/-- A double word is four. -/
theorem readDword_congr {sp sp' : ℕ → BYTE} {i : ℕ} (h : sp i = sp' i)
    (h₁ : sp (i + 1) = sp' (i + 1)) (h₂ : sp (i + 2) = sp' (i + 2))
    (h₃ : sp (i + 3) = sp' (i + 3)) : readDword sp i = readDword sp' i := by
  unfold readDword
  rw [readWord_congr h h₁, readWord_congr h₂ h₃]

/-- The offset of the ports is in the first byte. -/
theorem portOffset_congr {sp sp' : ℕ → BYTE} {ip : ℕ} (h : sp ip = sp' ip) :
    portOffset sp ip = portOffset sp' ip := by
  unfold portOffset
  rw [h]

/-- The decoding of a packet depends on the bytes read only. -/
theorem decodeIp_eq_of_bytesRead {sp sp' : ℕ → BYTE} {ip : ℕ}
    (h : ∀ i ∈ ipBytesRead sp ip, sp i = sp' i) (curSec : Int) (dir : ℕ) :
    decodeIp curSec sp ip dir = decodeIp curSec sp' ip dir := by
  have hprotocol : sp (ip + 9) = sp' (ip + 9) := h _ (by simp [ipBytesRead])
  unfold decodeIp
  by_cases htransport : isTransport sp ip
  · rw [if_pos htransport, if_pos ((isTransport_congr hprotocol).mp htransport)]
    simp only [ipBytesRead, if_pos htransport, List.mem_cons, List.not_mem_nil, or_false,
      forall_eq_or_imp, forall_eq] at h
    rcases h with ⟨h9, h12, h13, h14, h15, h16, h17, h18, h19, h0, hp0, hp1, _, _⟩
    have hsrc := readDword_congr h12 h13 h14 h15
    have hdst := readDword_congr h16 h17 h18 h19
    rw [hsrc, hdst, readWord_congr hp0 hp1, portOffset_congr h0, h9]
  · rw [if_neg htransport, if_neg (fun h' => htransport ((isTransport_congr hprotocol).mpr h'))]

/-- So does that of a frame. -/
theorem decode_eq_of_bytesRead {captureMode : ℕ} {sp sp' : ℕ → BYTE} {currentInterface : String}
    {bCooked : Bool} (h : ∀ i ∈ bytesRead captureMode sp currentInterface bCooked, sp i = sp' i)
    (curSec : Int) (dir : ℕ) :
    decode captureMode curSec sp currentInterface dir bCooked =
      decode captureMode curSec sp' currentInterface dir bCooked := by
  unfold bytesRead at h
  unfold decode decodeFrame
  -- the branches are decided by bytes that both packets share
  split
  · rfl
  · rename_i hmode
    rw [if_neg hmode] at h
    split
    · -- on the mobile interface there is no link header
      rename_i hdev
      rw [if_pos hdev] at h
      have h0 : sp 0 = sp' 0 := h 0 List.mem_cons_self
      rw [← h0]
      split
      · rename_i h45
        rw [if_pos h45] at h
        rw [decodeIp_eq_of_bytesRead fun i hi => h i (List.mem_cons_of_mem 0 hi)]
      · rfl
    · rename_i hdev
      rw [if_neg hdev] at h
      dsimp only at h ⊢
      -- a cooked header puts the type two bytes further
      generalize (if bCooked = true then 2 else 0) = base at h ⊢
      have htype : readWord sp (base + 12) = readWord sp' (base + 12) :=
        readWord_congr (h _ List.mem_cons_self)
          (h _ (List.mem_cons_of_mem _ List.mem_cons_self))
      rw [← htype]
      split
      · rename_i hip
        rw [if_pos hip] at h
        rw [decodeIp_eq_of_bytesRead fun i hi =>
          h i (List.mem_cons_of_mem _ (List.mem_cons_of_mem _ hi))]
      · rfl

/-- The call depends on the bytes read only. -/
theorem updatePacket_eq_of_bytesRead {captureMode : ℕ} {sp sp' : ℕ → BYTE}
    {currentInterface : String} {bCooked : Bool}
    (h : ∀ i ∈ bytesRead captureMode sp currentInterface bCooked, sp i = sp' i)
    (L : Limits) (fs : ProcFs) (curSec : Int) (dir : ℕ) (s : State) :
    updatePacket L fs captureMode curSec sp currentInterface dir bCooked s =
      updatePacket L fs captureMode curSec sp' currentInterface dir bCooked s := by
  rw [updatePacket_eq_decode, updatePacket_eq_decode, decode_eq_of_bytesRead h]

/-! ## Reading captured bytes only -/

/-- The bytes read of the IP header at `ip`, and of the ports, are captured. -/
def IpCaptured (sp : ℕ → BYTE) (ip caplen : ℕ) : Prop :=
  ip + 10 ≤ caplen ∧
    (isTransport sp ip → ip + 20 ≤ caplen ∧ portOffset sp ip + 4 ≤ caplen)

/-- The headers are captured as far as the frame's own bytes say it has them. -/
def HeadersCaptured (sp : ℕ → BYTE) (currentInterface : String) (bCooked : Bool)
    (caplen : ℕ) : Prop :=
  if currentInterface = "vsnet0" then 0 < caplen ∧ (sp 0 = 0x45 → IpCaptured sp 0 caplen)
  else
    let base := if bCooked then 2 else 0
    base + 14 ≤ caplen ∧
      (readWord sp (base + 12) = 0x0008 → IpCaptured sp (base + 14) caplen)

instance (sp : ℕ → BYTE) (ip caplen : ℕ) : Decidable (IpCaptured sp ip caplen) :=
  inferInstanceAs (Decidable (_ ∧ _))

instance (sp : ℕ → BYTE) (currentInterface : String) (bCooked : Bool) (caplen : ℕ) :
    Decidable (HeadersCaptured sp currentInterface bCooked caplen) :=
  inferInstanceAs (Decidable (if currentInterface = "vsnet0" then _ else _))

/-- The bytes read of a packet are captured exactly when its headers are. -/
theorem ipBytesRead_lt_iff {sp : ℕ → BYTE} {ip caplen : ℕ} :
    (∀ i ∈ ipBytesRead sp ip, i < caplen) ↔ IpCaptured sp ip caplen := by
  unfold ipBytesRead IpCaptured
  rw [List.forall_mem_cons]
  by_cases htransport : isTransport sp ip
  · rw [if_pos htransport]
    simp only [List.mem_cons, List.not_mem_nil, or_false, forall_eq_or_imp, forall_eq]
    constructor
    · intro hall
      exact ⟨by omega, fun _ => by omega⟩
    · rintro ⟨hhead, hports⟩
      have hports := hports htransport
      omega
  · rw [if_neg htransport]
    constructor
    · intro hall
      exact ⟨hall.1, fun h => absurd h htransport⟩
    · intro hcap
      exact ⟨hcap.1, fun i hi => absurd hi List.not_mem_nil⟩

/-- So are those of a frame. -/
theorem bytesRead_lt_iff {captureMode : ℕ} {sp : ℕ → BYTE} {currentInterface : String}
    {bCooked : Bool} {caplen : ℕ}
    (hmode : captureMode = capLinuxMmap ∨ captureMode = capLinuxStandard) :
    (∀ i ∈ bytesRead captureMode sp currentInterface bCooked, i < caplen) ↔
      HeadersCaptured sp currentInterface bCooked caplen := by
  -- the bytes of an IP header count only where there is one
  have hguard : ∀ (ip : ℕ) (p : Prop) [Decidable p],
      (∀ i ∈ (if p then ipBytesRead sp ip else []), i < caplen) ↔
        (p → IpCaptured sp ip caplen) := by
    intro ip p _
    rw [← ipBytesRead_lt_iff]
    by_cases hp : p
    · simp [hp]
    · simp [hp]
  unfold bytesRead HeadersCaptured
  rw [if_neg (by tauto)]
  split
  · rw [List.forall_mem_cons, hguard]
  · dsimp only
    rw [List.forall_mem_cons, List.forall_mem_cons, hguard, ← and_assoc]
    refine and_congr_left fun _ => ?_
    omega

/-! ## Depending on captured bytes only -/

/-- The bytes of the IP header at `ip` that decide the app id are captured: of a
packet up the remote address and the source port, of a packet down (where the
remote address is the source) likewise. -/
def IpDetermined (sp : ℕ → BYTE) (ip dir caplen : ℕ) : Prop :=
  ip + 10 ≤ caplen ∧
    (isTransport sp ip →
      (dir = 1 → ip + 20 ≤ caplen ∧ portOffset sp ip + 2 ≤ caplen) ∧
      (dir = 2 → ip + 16 ≤ caplen ∧ portOffset sp ip + 2 ≤ caplen))

/-- The bytes that decide the app id are captured. The first byte of the type
field settles a frame that is neither IPv4 nor ARP. -/
def AppIdDetermined (sp : ℕ → BYTE) (currentInterface : String) (dir : ℕ) (bCooked : Bool)
    (caplen : ℕ) : Prop :=
  if currentInterface = "vsnet0" then 0 < caplen ∧ (sp 0 = 0x45 → IpDetermined sp 0 dir caplen)
  else
    let base := if bCooked then 2 else 0
    base + 13 ≤ caplen ∧
      (sp (base + 12) = 0x08 → base + 14 ≤ caplen ∧
        (sp (base + 13) = 0x00 → IpDetermined sp (base + 14) dir caplen))

instance (sp : ℕ → BYTE) (ip dir caplen : ℕ) : Decidable (IpDetermined sp ip dir caplen) :=
  inferInstanceAs (Decidable (_ ∧ _))

instance (sp : ℕ → BYTE) (currentInterface : String) (dir : ℕ) (bCooked : Bool) (caplen : ℕ) :
    Decidable (AppIdDetermined sp currentInterface dir bCooked caplen) :=
  inferInstanceAs (Decidable (if currentInterface = "vsnet0" then _ else _))

/-- The search does not ask for the local address. -/
theorem searchFrom_localIP (conns : ℕ → ConnInfo) (pkt : Packet) (ip : DWORD) (is : List ℕ)
    (pConn : Option ℕ) :
    searchFrom conns { pkt with localIP := ip } is pConn = searchFrom conns pkt is pConn := by
  induction is generalizing pConn with
  | nil => rfl
  | cons i is ih =>
      unfold searchFrom
      rw [ih]
      rfl

theorem lookupConn_localIP (ok : ConnInfo → Bool) (pkt : Packet) (ip : DWORD) (s : State) :
    lookupConn ok { pkt with localIP := ip } s = lookupConn ok pkt s := by
  unfold lookupConn searchForConn
  rw [searchFrom_localIP]
  rfl

/-- The core never looks at the local address. -/
theorem updatePacketCore_localIP (L : Limits) (fs : ProcFs) (pkt : Packet) (ip : DWORD)
    (s : State) :
    updatePacketCore L fs { pkt with localIP := ip } s = updatePacketCore L fs pkt s := by
  unfold updatePacketCore
  simp only [lookupConn_localIP]

/-- So what is charged does not depend on it. -/
theorem dispatch_localIP (L : Limits) (fs : ProcFs) (s : State) (localPort remotePort : WORD)
    (ip ip' remoteIP : DWORD) (protocol : ℕ) (curSec : Int) :
    (Decoded.core ⟨localPort, ip, remotePort, remoteIP, protocol, curSec⟩).dispatch L fs s =
      (Decoded.core ⟨localPort, ip', remotePort, remoteIP, protocol, curSec⟩).dispatch L fs s :=
  updatePacketCore_localIP L fs ⟨localPort, ip', remotePort, remoteIP, protocol, curSec⟩ ip s

/-- Double words that are captured are the same. -/
theorem SameBelow.dword {caplen i : ℕ} {sp sp' : ℕ → BYTE} (h : SameBelow caplen sp sp')
    (hi : i + 4 ≤ caplen) : readDword sp i = readDword sp' i :=
  readDword_congr (h i (by omega)) (h (i + 1) (by omega)) (h (i + 2) (by omega))
    (h (i + 3) (by omega))

theorem SameBelow.word {caplen i : ℕ} {sp sp' : ℕ → BYTE} (h : SameBelow caplen sp sp')
    (hi : i + 2 ≤ caplen) : readWord sp i = readWord sp' i :=
  readWord_congr (h i (by omega)) (h (i + 1) (by omega))

/-- What captured bytes determine is the same for both frames. -/
theorem IpDetermined.dispatch_eq {sp sp' : ℕ → BYTE} {ip dir caplen : ℕ}
    (hdet : IpDetermined sp ip dir caplen) (h : SameBelow caplen sp sp') (L : Limits)
    (fs : ProcFs) (curSec : Int) (s : State) :
    (decodeIp curSec sp ip dir).dispatch L fs s =
      (decodeIp curSec sp' ip dir).dispatch L fs s := by
  rcases hdet with ⟨hhead, hdet⟩
  have hprotocol : sp (ip + 9) = sp' (ip + 9) := h _ (by omega)
  have hoffset : portOffset sp ip = portOffset sp' ip := portOffset_congr (h ip (by omega))
  unfold decodeIp
  by_cases htransport : isTransport sp ip
  · rw [if_pos htransport, if_pos ((isTransport_congr hprotocol).mp htransport)]
    dsimp only
    unfold Packet.ofDir
    by_cases hup : dir = 1
    · rcases (hdet htransport).1 hup with ⟨haddr, hport⟩
      rw [if_pos hup, if_pos hup, ← hoffset, h.word hport, h.dword (i := ip + 12) (by omega),
        h.dword (i := ip + 16) (by omega), hprotocol]
    · rw [if_neg hup, if_neg hup]
      by_cases hdown : dir = 2
      · rcases (hdet htransport).2 hdown with ⟨haddr, hport⟩
        rw [if_pos hdown, if_pos hdown, ← hoffset, h.word hport,
          h.dword (i := ip + 12) (by omega), hprotocol]
        -- the destination address, the local one, may differ
        exact dispatch_localIP L fs s _ _ _ _ _ _ _
      · rw [if_neg hdown, if_neg hdown]
  · rw [if_neg htransport, if_neg (fun h' => htransport ((isTransport_congr hprotocol).mpr h'))]

/-- The type field, byte by byte. -/
theorem readWord_eq_iff {sp : ℕ → BYTE} {i : ℕ} {w : WORD} :
    readWord sp i = w ↔
      sp i = UInt8.ofNat w.toNat ∧ sp (i + 1) = UInt8.ofNat (w.toNat / 256) := by
  have hlow : (sp i).toNat < 256 := (sp i).toNat_lt
  have hw : w.toNat < 65536 := w.toNat_lt
  rw [← UInt16.toNat_inj, ← UInt8.toNat_inj, ← UInt8.toNat_inj, readWord_toNat,
    UInt8.toNat_ofNat', UInt8.toNat_ofNat']
  have hhigh : w.toNat / 256 % 2 ^ 8 = w.toNat / 256 := Nat.mod_eq_of_lt (by omega)
  rw [hhigh]
  omega

/-- Captured bytes that decide the app id decide the whole call. -/
theorem AppIdDetermined.updatePacket_eq {sp sp' : ℕ → BYTE} {currentInterface : String}
    {dir caplen : ℕ} {bCooked : Bool}
    (hdet : AppIdDetermined sp currentInterface dir bCooked caplen)
    (h : SameBelow caplen sp sp') (L : Limits) (fs : ProcFs) (captureMode : ℕ) (curSec : Int)
    (s : State) :
    updatePacket L fs captureMode curSec sp currentInterface dir bCooked s =
      updatePacket L fs captureMode curSec sp' currentInterface dir bCooked s := by
  unfold AppIdDetermined at hdet
  unfold updatePacket
  split
  · rfl
  · split
    · rename_i hdev
      rw [if_pos hdev] at hdet
      rw [← h 0 hdet.1]
      by_cases h45 : sp 0 = 0x45
      · rw [if_neg (by simp [h45]), if_neg (by simp [h45]), updateIpPacket_eq_decodeIp,
          updateIpPacket_eq_decodeIp, (hdet.2 h45).dispatch_eq h]
      · rw [if_pos h45, if_pos h45]
    · rename_i hdev
      rw [if_neg hdev] at hdet
      dsimp only at hdet ⊢
      generalize (if bCooked = true then 2 else 0) = base at hdet ⊢
      rcases hdet with ⟨hfirst, hdet⟩
      have heq : sp (base + 12) = sp' (base + 12) := h _ (by omega)
      by_cases hlow : sp (base + 12) = 0x08
      · rcases hdet hlow with ⟨hsecond, hdet⟩
        have htype : readWord sp (base + 12) = readWord sp' (base + 12) := h.word (by omega)
        rw [← htype]
        by_cases hip : readWord sp (base + 12) = 0x0008
        · have hzero : sp (base + 13) = 0x00 := (readWord_eq_iff.mp hip).2
          rw [if_neg (by simp [hip]), if_neg (by simp [hip]), updateIpPacket_eq_decodeIp,
            updateIpPacket_eq_decodeIp, (hdet hzero).dispatch_eq h]
        · rw [if_pos hip, if_pos hip]
      · -- neither IPv4 nor ARP, whatever the second byte is
        have hnot : ∀ (sp₁ : ℕ → BYTE) (w : WORD), sp₁ (base + 12) ≠ 0x08 →
            UInt8.ofNat w.toNat = 0x08 → readWord sp₁ (base + 12) ≠ w := by
          intro sp₁ w hne hw heq
          exact hne ((readWord_eq_iff.mp heq).1.trans hw)
        have hlow' : sp' (base + 12) ≠ 0x08 := heq ▸ hlow
        rw [if_pos (hnot sp 0x0008 hlow (by decide)), if_pos (hnot sp' 0x0008 hlow' (by decide)),
          if_neg (hnot sp 0x0608 hlow (by decide)), if_neg (hnot sp' 0x0608 hlow' (by decide))]

/-! ## Telling two frames apart -/

/-- A table in which every slot of the two indexes leads to a fresh entry, or to
none; the entries are their own applications. -/
def State.probe (port ip : ℕ → Int) (curSec : Int) : State :=
  { State.zero with
    conns := fun i => { (default : ConnInfo) with appid := i, tvSec := curSec }
    port2connid := ⟨port, []⟩
    ip2connid := ⟨ip, []⟩ }

/-- The entries of the probe are fresh. -/
theorem State.probe_fresh (port ip : ℕ → Int) (curSec : Int) (i : ℕ) :
    ((State.probe port ip curSec).conns i).Fresh curSec := by
  show curSec < curSec + timeout
  unfold timeout
  omega

/-- With a port slot set the probe returns it. -/
theorem updatePacketCore_probe_port {port : ℕ → Int} {pkt : Packet} {i : ℕ}
    (h : port pkt.portSlot = i) (ip : ℕ → Int) (L : Limits) (fs : ProcFs) :
    (updatePacketCore L fs pkt (State.probe port ip pkt.curSec)).map Prod.fst = .ok (i : Int) := by
  have hlook : lookupConn (fun c => c.Fresh pkt.curSec) pkt (State.probe port ip pkt.curSec) =
      .ok (some i) := by
    unfold lookupConn
    have hslot : (State.probe port ip pkt.curSec).port2connid.slot pkt.portSlot = i := h
    rw [hslot]
    dsimp only
    rw [if_pos ⟨by omega, by simpa using State.probe_fresh port ip pkt.curSec i⟩]
    rfl
  unfold updatePacketCore
  rw [hlook]
  rfl

/-- With an address slot set it returns that. -/
theorem updatePacketCore_probe_ip {ip : ℕ → Int} {pkt : Packet} {i : ℕ}
    (h : ip pkt.ipSlot = i) (L : Limits) (fs : ProcFs) :
    (updatePacketCore L fs pkt (State.probe (fun _ => -1) ip pkt.curSec)).map Prod.fst =
      .ok (i : Int) := by
  have hlook : lookupConn (fun c => c.Fresh pkt.curSec) pkt
      (State.probe (fun _ => -1) ip pkt.curSec) = .ok (some i) := by
    unfold lookupConn
    have hport : (State.probe (fun _ => -1) ip pkt.curSec).port2connid.slot pkt.portSlot = -1 :=
      rfl
    have hip : (State.probe (fun _ => -1) ip pkt.curSec).ip2connid.slot pkt.ipSlot = i := h
    rw [hport, hip]
    dsimp only
    rw [if_neg (by omega),
      if_pos ⟨by omega, by simpa using State.probe_fresh (fun _ => -1) ip pkt.curSec i⟩]
    rfl
  unfold updatePacketCore
  rw [hlook]
  rfl

/-- The id of a decoded frame over a table where every slot leads to entry 0. -/
def Decoded.firstId : Decoded → Int
  | .appid id => id
  | .core _ => 0

/-- No table tells the two apart. -/
structure Decoded.Alike (d d' : Decoded) : Prop where
  firstId : d.firstId = d'.firstId
  slots : ∀ pkt pkt', d = .core pkt → d' = .core pkt' →
    pkt.portSlot = pkt'.portSlot ∧ pkt.ipSlot = pkt'.ipSlot

/-- `firstId` is what the probe returns. -/
theorem Decoded.firstId_spec (d : Decoded) (curSec : Int)
    (hcur : ∀ pkt, d = .core pkt → pkt.curSec = curSec) (L : Limits) (fs : ProcFs) :
    (d.dispatch L fs (State.probe (fun _ => 0) (fun _ => 0) curSec)).map Prod.fst =
      .ok d.firstId := by
  cases d with
  | appid id => rfl
  | core pkt =>
      rw [← hcur pkt rfl]
      exact updatePacketCore_probe_port (i := 0) rfl (fun _ => 0) L fs

/-- Frames that every table attributes alike go to the same slots: a table with
entry 0 in one slot and entry 1 in all others would tell them apart. -/
theorem Decoded.alike_of_dispatch_eq {d d' : Decoded} {curSec : Int} (L : Limits) (fs : ProcFs)
    (hcur : ∀ pkt, d = .core pkt → pkt.curSec = curSec)
    (hcur' : ∀ pkt, d' = .core pkt → pkt.curSec = curSec)
    (h : ∀ s, d.dispatch L fs s = d'.dispatch L fs s) : d.Alike d' where
  firstId := by
    have heq := congrArg (Except.map Prod.fst) (h (State.probe (fun _ => 0) (fun _ => 0) curSec))
    rw [firstId_spec d curSec hcur, firstId_spec d' curSec hcur'] at heq
    exact Except.ok.inj heq
  slots := by
    rintro pkt pkt' rfl rfl
    have hpkt : pkt.curSec = curSec := hcur pkt rfl
    have hpkt' : pkt'.curSec = curSec := hcur' pkt' rfl
    constructor
    · by_contra hne
      -- a table that indexes one of the two slots only tells them apart
      let port : ℕ → Int := fun k => if k = pkt.portSlot then (0 : ℕ) else (1 : ℕ)
      have hfirst : port pkt.portSlot = (0 : ℕ) := if_pos rfl
      have hsecond : port pkt'.portSlot = (1 : ℕ) := if_neg (Ne.symm hne)
      have heq := congrArg (Except.map Prod.fst) (h (State.probe port (fun _ => 0) curSec))
      have h0 := updatePacketCore_probe_port hfirst (fun _ => 0) L fs
      have h1 := updatePacketCore_probe_port hsecond (fun _ => 0) L fs
      rw [hpkt] at h0
      rw [hpkt'] at h1
      simp only [dispatch, h0, h1] at heq
      cases heq
    · by_contra hne
      -- the same with the slots of addresses
      let ip : ℕ → Int := fun k => if k = pkt.ipSlot then (0 : ℕ) else (1 : ℕ)
      have hfirst : ip pkt.ipSlot = (0 : ℕ) := if_pos rfl
      have hsecond : ip pkt'.ipSlot = (1 : ℕ) := if_neg (Ne.symm hne)
      have heq := congrArg (Except.map Prod.fst) (h (State.probe (fun _ => -1) ip curSec))
      have h0 := updatePacketCore_probe_ip hfirst L fs
      have h1 := updatePacketCore_probe_ip hsecond L fs
      rw [hpkt] at h0
      rw [hpkt'] at h1
      simp only [dispatch, h0, h1] at heq
      cases heq

/-! ## Bytes past the captured ones that matter -/

/-- No two ports are swapped to one. -/
theorem swapPort_injective {w w' : WORD} (h : swapPort w = swapPort w') : w = w' := by
  have hw : w.toNat < 65536 := w.toNat_lt
  have hw' : w'.toNat < 65536 := w'.toNat_lt
  have heq := congrArg UInt16.toNat h
  rw [swapPort_toNat, swapPort_toNat] at heq
  apply UInt16.toNat_inj.mp
  omega

/-- The two halves of an address, masked and added, are the address. -/
theorem halves_add (x : BitVec 32) : (x &&& 0xFFFF#32) + (x &&& 0xFFFF0000#32) = x := by
  have hnone : 0xFFFF#32 &&& 0xFFFF0000#32 = 0#32 := by decide
  have hall : 0xFFFF#32 ||| 0xFFFF0000#32 = BitVec.allOnes 32 := by decide
  have hdisjoint : (x &&& 0xFFFF#32) &&& (x &&& 0xFFFF0000#32) = 0#32 := by
    calc (x &&& 0xFFFF#32) &&& (x &&& 0xFFFF0000#32)
        = (x &&& x) &&& (0xFFFF#32 &&& 0xFFFF0000#32) := by ac_rfl
      _ = 0#32 := by rw [hnone, BitVec.and_zero]
  rw [BitVec.add_eq_or_of_and_eq_zero _ _ hdisjoint, ← BitVec.and_or_distrib_left, hall,
    BitVec.and_allOnes]

/-- The hash of an address is its second word. -/
theorem ipHash_readDword (sp : ℕ → BYTE) (i : ℕ) :
    ipHash (readDword sp i) = readWord sp (i + 2) := by
  have hsum : ∀ ip : DWORD, (ip &&& 0xFFFF) + (ip &&& 0xFFFF0000) = ip := fun ip =>
    UInt32.eq_of_toBitVec_eq (halves_add ip.toBitVec)
  have hlow : (readWord sp i).toNat < 65536 := (readWord sp i).toNat_lt
  have hhigh : (readWord sp (i + 2)).toNat < 65536 := (readWord sp (i + 2)).toNat_lt
  have hshift : (readDword sp i >>> 16).toNat = (readDword sp i).toNat / 65536 := by
    rw [UInt32.toNat_shiftRight]
    exact Nat.shiftRight_eq_div_pow _ 16
  apply UInt16.toNat_inj.mp
  unfold ipHash
  rw [hsum, UInt32.toNat_toUInt16, hshift, readDword_toNat]
  omega

/-- A byte past the captured ones may be anything. -/
theorem sameBelow_update {caplen j : ℕ} (h : caplen ≤ j) (sp : ℕ → BYTE) (b : BYTE) :
    SameBelow caplen sp (Function.update sp j b) := by
  intro i hi
  rw [Function.update_of_ne (by omega)]

/-- A packet's first id is -2 at least. -/
theorem neg_two_le_firstId_ofDir (dir : ℕ) (srcIP dstIP : DWORD) (srcPort dstPort : WORD)
    (protocol : ℕ) (curSec : Int) :
    -2 ≤ (Packet.ofDir dir srcIP dstIP srcPort dstPort protocol curSec).firstId := by
  unfold Packet.ofDir
  split
  · simp [Decoded.firstId]
  · split
    · simp [Decoded.firstId]
    · simp [Decoded.firstId, packetUnknownDir]

/-- And -4 at least, if it is not decoded. -/
theorem neg_four_le_firstId_decodeIp (curSec : Int) (sp : ℕ → BYTE) (ip dir : ℕ) :
    -4 ≤ (decodeIp curSec sp ip dir).firstId := by
  unfold decodeIp
  split
  · dsimp only
    have hdir := neg_two_le_firstId_ofDir dir (readDword sp (ip + 12)) (readDword sp (ip + 16))
      (swapPort (readWord sp (portOffset sp ip)))
      (swapPort (swapPort (readWord sp (portOffset sp ip)))) (sp (ip + 9)).toNat curSec
    omega
  · simp [Decoded.firstId, packetUnknownIpProt]

/-- Packets no table tells apart have the same source port, and the same second
word of the remote address. -/
theorem words_eq_of_alike {curSec : Int} {sp₁ sp₂ : ℕ → BYTE} {ip dir : ℕ}
    (h₁ : isTransport sp₁ ip) (h₂ : isTransport sp₂ ip) (hdir : dir = 1 ∨ dir = 2)
    (h : (decodeIp curSec sp₁ ip dir).Alike (decodeIp curSec sp₂ ip dir)) :
    readWord sp₁ (portOffset sp₁ ip) = readWord sp₂ (portOffset sp₂ ip) ∧
      (dir = 1 → readWord sp₁ (ip + 18) = readWord sp₂ (ip + 18)) ∧
      (dir = 2 → readWord sp₁ (ip + 14) = readWord sp₂ (ip + 14)) := by
  unfold decodeIp at h
  rw [if_pos h₁, if_pos h₂] at h
  unfold Packet.ofDir at h
  rcases hdir with rfl | rfl
  · rcases h.slots _ _ rfl rfl with ⟨hport, hip⟩
    have hport := swapPort_injective (UInt16.toNat_inj.mp hport)
    have hip := UInt16.toNat_inj.mp hip
    rw [ipHash_readDword, ipHash_readDword] at hip
    exact ⟨hport, fun _ => hip, fun h => by omega⟩
  · rcases h.slots _ _ rfl rfl with ⟨hport, hip⟩
    have hport := swapPort_injective (swapPort_injective (UInt16.toNat_inj.mp hport))
    have hip := UInt16.toNat_inj.mp hip
    rw [ipHash_readDword, ipHash_readDword] at hip
    exact ⟨hport, fun h => by omega, fun _ => hip⟩

/-- An IP header some byte of which past `caplen` matters can be completed in
two ways that some table tells apart. -/
theorem ipDetermined_of_alike (curSec : Int) {sp : ℕ → BYTE} {ip dir caplen : ℕ}
    (h : ∀ sp₁ sp₂, SameBelow caplen sp sp₁ → SameBelow caplen sp sp₂ →
      (decodeIp curSec sp₁ ip dir).Alike (decodeIp curSec sp₂ ip dir)) :
    IpDetermined sp ip dir caplen := by
  have hhead : ip + 10 ≤ caplen := by
    by_contra hlt
    have heq := (h _ _ (sameBelow_update (j := ip + 9) (by omega) sp 0)
      (sameBelow_update (j := ip + 9) (by omega) sp 6)).firstId
    have hnone : ¬ isTransport (Function.update sp (ip + 9) 0) ip := by
      simp [isTransport, protTcp, protUdp]
    have htcp : isTransport (Function.update sp (ip + 9) 6) ip := by
      simp [isTransport, protTcp]
    unfold decodeIp at heq
    rw [if_neg hnone, if_pos htcp] at heq
    have hdir := le_of_le_of_eq (neg_two_le_firstId_ofDir _ _ _ _ _ _ _) heq.symm
    simp [Decoded.firstId, packetUnknownIpProt] at hdir
  refine ⟨hhead, fun htransport => ?_⟩
  -- two completions that differ in byte `j`
  have hwords : ∀ j, caplen ≤ j → dir = 1 ∨ dir = 2 →
      readWord (Function.update sp j 0) (portOffset sp ip) =
          readWord (Function.update sp j 1) (portOffset sp ip) ∧
        (dir = 1 → readWord (Function.update sp j 0) (ip + 18) =
          readWord (Function.update sp j 1) (ip + 18)) ∧
        (dir = 2 → readWord (Function.update sp j 0) (ip + 14) =
          readWord (Function.update sp j 1) (ip + 14)) := by
    intro j hj hdir
    have hkeep : ∀ b, isTransport (Function.update sp j b) ip := fun b =>
      (isTransport_congr (sameBelow_update hj sp b _ (by omega))).mp htransport
    have hoffset : ∀ b, portOffset (Function.update sp j b) ip = portOffset sp ip := fun b =>
      (portOffset_congr (sameBelow_update hj sp b _ (by omega))).symm
    have hwords := words_eq_of_alike (hkeep 0) (hkeep 1) hdir
      (h _ _ (sameBelow_update hj sp 0) (sameBelow_update hj sp 1))
    rw [hoffset, hoffset] at hwords
    exact hwords
  have hdiff : ∀ i, readWord (Function.update sp (i + 1) 0) i ≠
      readWord (Function.update sp (i + 1) 1) i := by
    intro i heq
    have heq := congrArg UInt16.toNat heq
    rw [readWord_toNat, readWord_toNat, Function.update_self, Function.update_self,
      Function.update_of_ne (by omega), Function.update_of_ne (by omega)] at heq
    simp at heq
  constructor
  · intro hup
    constructor
    · by_contra hlt
      exact hdiff (ip + 18) ((hwords (ip + 19) (by omega) (Or.inl hup)).2.1 hup)
    · by_contra hlt
      exact hdiff _ (hwords (portOffset sp ip + 1) (by omega) (Or.inl hup)).1
  · intro hdown
    constructor
    · by_contra hlt
      exact hdiff (ip + 14) ((hwords (ip + 15) (by omega) (Or.inr hdown)).2.2 hdown)
    · by_contra hlt
      exact hdiff _ (hwords (portOffset sp ip + 1) (by omega) (Or.inr hdown)).1

/-- A frame is decoded to a packet of the time it was captured at. -/
theorem decodeFrame_curSec {curSec : Int} {sp : ℕ → BYTE} {currentInterface : String} {dir : ℕ}
    {bCooked : Bool} {pkt : Packet}
    (h : decodeFrame curSec sp currentInterface dir bCooked = .core pkt) :
    pkt.curSec = curSec := by
  have hip : ∀ ip, decodeIp curSec sp ip dir = .core pkt → pkt.curSec = curSec := by
    intro ip hcore
    unfold decodeIp at hcore
    split at hcore
    · unfold Packet.ofDir at hcore
      split at hcore
      · cases hcore
        rfl
      · split at hcore
        · cases hcore
          rfl
        · cases hcore
    · cases hcore
  unfold decodeFrame at h
  split at h
  · split at h
    · exact hip 0 h
    · cases h
  · generalize (if bCooked = true then 2 else 0) = base at h
    dsimp only at h
    split at h
    · exact hip _ h
    · split at h
      · cases h
      · cases h

/-- A frame some byte of which past `caplen` matters can be completed in two
ways that some table tells apart. -/
theorem appIdDetermined_of_alike (curSec : Int) {sp : ℕ → BYTE} {currentInterface : String}
    {dir caplen : ℕ} {bCooked : Bool}
    (h : ∀ sp₁ sp₂, SameBelow caplen sp sp₁ → SameBelow caplen sp sp₂ →
      (decodeFrame curSec sp₁ currentInterface dir bCooked).Alike
        (decodeFrame curSec sp₂ currentInterface dir bCooked)) :
    AppIdDetermined sp currentInterface dir bCooked caplen := by
  unfold AppIdDetermined
  unfold decodeFrame at h
  by_cases hdev : currentInterface = "vsnet0"
  · simp only [if_pos hdev] at h ⊢
    have hfirst : 0 < caplen := by
      by_contra hzero
      have heq := (h _ _ (sameBelow_update (j := 0) (by omega) sp 0)
        (sameBelow_update (j := 0) (by omega) sp 0x45)).firstId
      rw [Function.update_self, Function.update_self, if_neg (by decide), if_pos rfl] at heq
      have hip := le_of_le_of_eq (neg_four_le_firstId_decodeIp _ _ _ _) heq.symm
      simp [Decoded.firstId, packetUnknownEtherProt] at hip
    refine ⟨hfirst, fun h45 => ipDetermined_of_alike curSec fun sp₁ sp₂ h₁ h₂ => ?_⟩
    have halike := h sp₁ sp₂ h₁ h₂
    rw [if_pos ((h₁ 0 hfirst).symm.trans h45), if_pos ((h₂ 0 hfirst).symm.trans h45)] at halike
    exact halike
  · simp only [if_neg hdev] at h ⊢
    generalize (if bCooked = true then 2 else 0) = base at h ⊢
    -- a type field completed to ARP and one completed to neither ARP nor IPv4
    have harp : ∀ sp₁ sp₂, SameBelow caplen sp sp₁ → SameBelow caplen sp sp₂ →
        readWord sp₁ (base + 12) = 0x0608 → readWord sp₂ (base + 12) ≠ 0x0008 →
        readWord sp₂ (base + 12) ≠ 0x0608 → False := by
      intro sp₁ sp₂ h₁ h₂ harp hnotIp hnotArp
      have heq := (h sp₁ sp₂ h₁ h₂).firstId
      rw [harp, if_neg (by decide), if_pos rfl, if_neg hnotIp, if_neg hnotArp] at heq
      cases heq
    have hlow : base + 13 ≤ caplen := by
      by_contra hlt
      refine harp (Function.update (Function.update sp (base + 12) 0x08) (base + 13) 0x06)
        (Function.update sp (base + 12) 0x00) ?_ (sameBelow_update (by omega) sp _) ?_ ?_ ?_
      · intro i hi
        rw [Function.update_of_ne (by omega), Function.update_of_ne (by omega)]
      · rw [readWord_eq_iff]
        simp
      · rw [Ne, readWord_eq_iff]
        simp
      · rw [Ne, readWord_eq_iff]
        simp
    refine ⟨hlow, fun hip => ?_⟩
    have hhigh : base + 14 ≤ caplen := by
      by_contra hlt
      refine harp (Function.update sp (base + 13) 0x06) (Function.update sp (base + 13) 0x01)
        (sameBelow_update (by omega) sp _) (sameBelow_update (by omega) sp _) ?_ ?_ ?_
      · rw [readWord_eq_iff]
        simp [hip]
      · rw [Ne, readWord_eq_iff]
        simp
      · rw [Ne, readWord_eq_iff]
        simp
    refine ⟨hhigh, fun hzero => ipDetermined_of_alike curSec fun sp₁ sp₂ h₁ h₂ => ?_⟩
    have htype : ∀ sp₁, SameBelow caplen sp sp₁ → readWord sp₁ (base + 12) = 0x0008 := by
      intro sp₁ h₁
      rw [readWord_eq_iff, ← h₁ _ (by omega), ← h₁ (base + 12 + 1) (by omega)]
      exact ⟨hip, hzero⟩
    have halike := h sp₁ sp₂ h₁ h₂
    rw [if_pos (htype sp₁ h₁), if_pos (htype sp₂ h₂)] at halike
    exact halike

/-- For every frame: the app id and the new tables depend on captured bytes only
exactly when the bytes that decide the app id are captured, and only captured
bytes are read exactly when the headers are. -/
theorem updatePacket_captured_iff {captureMode : ℕ}
    (hmode : captureMode = capLinuxMmap ∨ captureMode = capLinuxStandard)
    (sp : ℕ → BYTE) (currentInterface : String) (dir : ℕ) (bCooked : Bool) (caplen : ℕ) :
    ((∀ sp', SameBelow caplen sp sp' → ∀ L fs curSec s,
        updatePacket L fs captureMode curSec sp currentInterface dir bCooked s =
          updatePacket L fs captureMode curSec sp' currentInterface dir bCooked s) ↔
      AppIdDetermined sp currentInterface dir bCooked caplen) ∧
    ((∀ i ∈ bytesRead captureMode sp currentInterface bCooked, i < caplen) ↔
      HeadersCaptured sp currentInterface bCooked caplen) := by
  refine ⟨⟨fun h => ?_, fun hdet sp' h L fs curSec s => hdet.updatePacket_eq h L fs _ curSec s⟩,
    bytesRead_lt_iff hmode⟩
  refine appIdDetermined_of_alike 0 fun sp₁ sp₂ h₁ h₂ => ?_
  refine Decoded.alike_of_dispatch_eq srcLimits (ProcFs.ofSockets [] [] [])
    (fun _ => decodeFrame_curSec) (fun _ => decodeFrame_curSec) fun s => ?_
  have hdecode : ∀ sp', updatePacket srcLimits (ProcFs.ofSockets [] [] []) captureMode 0 sp'
      currentInterface dir bCooked s = (decodeFrame 0 sp' currentInterface dir bCooked).dispatch
        srcLimits (ProcFs.ofSockets [] [] []) s := by
    intro sp'
    rw [updatePacket_eq_decode]
    unfold decode
    rw [if_neg (by tauto)]
    rfl
  calc (decodeFrame 0 sp₁ currentInterface dir bCooked).dispatch _ _ s
      = updatePacket _ _ captureMode 0 sp₁ currentInterface dir bCooked s := (hdecode sp₁).symm
    _ = updatePacket _ _ captureMode 0 sp currentInterface dir bCooked s :=
        (h sp₁ h₁ _ _ 0 s).symm
    _ = updatePacket _ _ captureMode 0 sp₂ currentInterface dir bCooked s := h sp₂ h₂ _ _ 0 s
    _ = _ := hdecode sp₂

/-- The 54 bytes of Ethernet, IPv4 and TCP headers decide everything. -/
theorem updatePacket_captured_https :
    (∀ sp', SameBelow 54 (Ipv4Packet.https.frame .ethernet) sp' → ∀ L fs curSec s,
        updatePacket L fs capLinuxMmap curSec (Ipv4Packet.https.frame .ethernet)
          "rmnet0" 1 false s =
          updatePacket L fs capLinuxMmap curSec sp' "rmnet0" 1 false s) ∧
      ∀ i ∈ bytesRead capLinuxMmap (Ipv4Packet.https.frame .ethernet) "rmnet0" false, i < 54 := by
  have h := updatePacket_captured_iff (Or.inl rfl) (Ipv4Packet.https.frame .ethernet) "rmnet0" 1
    false 54
  exact ⟨h.1.mpr (by decide), h.2.mpr (by decide)⟩

/-- An Ethernet header that announces an IPv4 packet, and nothing behind it. -/
def runt : Bytes := [0, 0, 0, 0, 0, 0, 0, 0, 0, 0, 0, 0, 0x08, 0x00]

/-- The runt is taken for the packet received before it, or for none. -/
theorem updatePacket_runt :
    ¬ ∀ (captureMode : ℕ) (sp sp' : ℕ → BYTE) (currentInterface : String) (dir : ℕ)
      (bCooked : Bool) (caplen : ℕ),
      (captureMode = capLinuxMmap ∨ captureMode = capLinuxStandard) → SameBelow caplen sp sp' →
      ∀ L fs curSec s, updatePacket L fs captureMode curSec sp currentInterface dir bCooked s =
        updatePacket L fs captureMode curSec sp' currentInterface dir bCooked s := by
  intro hall
  have hsame := hall capLinuxStandard (recvInto 65535 0 runt fun _ => 0)
    (recvInto 65535 0 runt (Ipv4Packet.https.frame .ethernet)) "rmnet0" 1 false
    (capturedLength 65535 0 runt) (Or.inr rfl)
    (recvInto_sameBelow (Nat.le_refl _) fun i hi => absurd hi (Nat.not_lt_zero i))
    srcLimits (ProcFs.ofSockets [] [] []) 0 (State.probe (fun _ => 0) (fun _ => 0) 0)
  have hfirst : (updatePacket srcLimits (ProcFs.ofSockets [] [] []) capLinuxStandard 0
      (recvInto 65535 0 runt fun _ => 0) "rmnet0" 1 false
      (State.probe (fun _ => 0) (fun _ => 0) 0)).map Prod.fst = .ok (-4) := by
    rfl
  have hsecond : (updatePacket srcLimits (ProcFs.ofSockets [] [] []) capLinuxStandard 0
      (recvInto 65535 0 runt (Ipv4Packet.https.frame .ethernet)) "rmnet0" 1 false
      (State.probe (fun _ => 0) (fun _ => 0) 0)).map Prod.fst = .ok 0 := by
    rfl
  rw [hsame, hsecond] at hfirst
  cases hfirst

end MobiPerf.SocketProc
