import MobiPerf.SocketProc.Packet

/-!
# SocketProc.Header — from a captured frame to a packet

`UpdatePacket` reads the link and IP headers of a frame at fixed offsets and
hands addresses and ports to `UpdatePacket_Core`. The buffer is a function on
offsets: the source never compares an offset with the captured length.

* `updatePacket_eq_decode`: the call is a decoding of the headers (`decode`)
  followed by the call of the core, if there is one.
* `decode_carried`: what is decoded from a frame that carries an IPv4 TCP or UDP
  packet. Everything is the packet's own but the destination port, which is the
  source port with its bytes exchanged.
-/

namespace MobiPerf.SocketProc

def capLinuxStandard : ℕ := 1
def capLinuxMmap : ℕ := 2

/-! ## Ids that are not applications -/

def packetUnknownDir : Int := -2
def packetArp : Int := -3
def packetUnknownIpProt : Int := -4
def packetUnknownEtherProt : Int := -5

/-! ## Reading the buffer -/

/-- `*((WORD *)(sp+i))`, little endian. -/
def readWord (sp : ℕ → BYTE) (i : ℕ) : WORD :=
  (sp i).toUInt16 ||| ((sp (i + 1)).toUInt16 <<< 8)

/-- `*((DWORD *)(sp+i))`, little endian. -/
def readDword (sp : ℕ → BYTE) (i : ℕ) : DWORD :=
  (readWord sp i).toUInt32 ||| ((readWord sp (i + 2)).toUInt32 <<< 16)

/-- The exchange of the two bytes of a port. -/
def swapPort (port : WORD) : WORD :=
  ((port &&& 0xFF00) >>> 8) ||| ((port &&& 0x00FF) <<< 8)

/-- The part of `UpdatePacket` after the link header; `ip` is the offset of the
IP header. The second exchange of the source reads `srcPort` again. -/
def updateIpPacket (L : Limits) (fs : ProcFs) (curSec : Int) (sp : ℕ → BYTE) (ip dir : ℕ)
    (s : State) : Except Halt (Int × State) :=
  let protocol := (sp (ip + 9)).toNat
  if protocol ≠ protTcp ∧ protocol ≠ protUdp then .ok (packetUnknownIpProt, s)
  else
    let srcIP := readDword sp (ip + 12)
    let dstIP := readDword sp (ip + 16)
    let offset := 4 * (sp ip &&& 0x0F).toNat
    let srcPort := readWord sp (ip + offset)
    -- read, and overwritten before it is used
    let _dstPort := readWord sp (ip + offset + 2)
    let srcPort := swapPort srcPort
    let dstPort := swapPort srcPort
    if dir = 1 then
      updatePacketCore L fs ⟨srcPort, srcIP, dstPort, dstIP, protocol, curSec⟩ s
    else if dir = 2 then
      updatePacketCore L fs ⟨dstPort, dstIP, srcPort, srcIP, protocol, curSec⟩ s
    else .ok (packetUnknownDir, s)

/-- `UpdatePacket`. -/
def updatePacket (L : Limits) (fs : ProcFs) (captureMode : ℕ) (curSec : Int) (sp : ℕ → BYTE)
    (currentInterface : String) (dir : ℕ) (bCooked : Bool) (s : State) :
    Except Halt (Int × State) :=
  if captureMode ≠ capLinuxMmap ∧ captureMode ≠ capLinuxStandard then
    .error (.exit "Unknown capture mode")
  else if currentInterface = "vsnet0" then
    -- no link header at all
    if sp 0 ≠ 0x45 then .ok (packetUnknownEtherProt, s)
    else updateIpPacket L fs curSec sp 0 dir s
  else
    let base := if bCooked then 2 else 0
    let etherProtocol := readWord sp (base + 12)
    if etherProtocol ≠ 0x0008 then
      .ok (if etherProtocol = 0x0608 then packetArp else packetUnknownEtherProt, s)
    else updateIpPacket L fs curSec sp (base + 14) dir s

/-! ## The decoding on its own -/

/-- What the headers of a frame lead to: an id that is no application, or a call
of `UpdatePacket_Core`. -/
inductive Decoded where
  | appid (id : Int)
  | core (pkt : Packet)
deriving DecidableEq, Repr

/-- The packet handed to the core, by direction. -/
def Packet.ofDir (dir : ℕ) (srcIP dstIP : DWORD) (srcPort dstPort : WORD) (protocol : ℕ)
    (curSec : Int) : Decoded :=
  if dir = 1 then .core ⟨srcPort, srcIP, dstPort, dstIP, protocol, curSec⟩
  else if dir = 2 then .core ⟨dstPort, dstIP, srcPort, srcIP, protocol, curSec⟩
  else .appid packetUnknownDir

/-- The offset of the ports: the header length of the IP header at `ip`. -/
def portOffset (sp : ℕ → BYTE) (ip : ℕ) : ℕ := ip + 4 * (sp ip &&& 0x0F).toNat

/-- Whether the IP header at `ip` is that of a TCP or UDP packet. -/
def isTransport (sp : ℕ → BYTE) (ip : ℕ) : Prop :=
  (sp (ip + 9)).toNat = protTcp ∨ (sp (ip + 9)).toNat = protUdp

instance (sp : ℕ → BYTE) (ip : ℕ) : Decidable (isTransport sp ip) :=
  inferInstanceAs (Decidable (_ ∨ _))

/-- The decoding of an IP header. -/
def decodeIp (curSec : Int) (sp : ℕ → BYTE) (ip dir : ℕ) : Decoded :=
  if isTransport sp ip then
    let srcPort := swapPort (readWord sp (portOffset sp ip))
    Packet.ofDir dir (readDword sp (ip + 12)) (readDword sp (ip + 16)) srcPort (swapPort srcPort)
      (sp (ip + 9)).toNat curSec
  else .appid packetUnknownIpProt

/-- The decoding of a frame. -/
def decodeFrame (curSec : Int) (sp : ℕ → BYTE) (currentInterface : String) (dir : ℕ)
    (bCooked : Bool) : Decoded :=
  if currentInterface = "vsnet0" then
    if sp 0 = 0x45 then decodeIp curSec sp 0 dir else .appid packetUnknownEtherProt
  else
    let base := if bCooked then 2 else 0
    let etherProtocol := readWord sp (base + 12)
    if etherProtocol = 0x0008 then decodeIp curSec sp (base + 14) dir
    else if etherProtocol = 0x0608 then .appid packetArp
    else .appid packetUnknownEtherProt

/-- The decoding in a capture mode. -/
def decode (captureMode : ℕ) (curSec : Int) (sp : ℕ → BYTE) (currentInterface : String)
    (dir : ℕ) (bCooked : Bool) : Except Halt Decoded :=
  if captureMode ≠ capLinuxMmap ∧ captureMode ≠ capLinuxStandard then
    .error (.exit "Unknown capture mode")
  else .ok (decodeFrame curSec sp currentInterface dir bCooked)

/-- What is done with a decoded frame. -/
def Decoded.dispatch (L : Limits) (fs : ProcFs) (s : State) : Decoded → Except Halt (Int × State)
  | .appid id => .ok (id, s)
  | .core pkt => updatePacketCore L fs pkt s

theorem updateIpPacket_eq_decodeIp (L : Limits) (fs : ProcFs) (curSec : Int) (sp : ℕ → BYTE)
    (ip dir : ℕ) (s : State) :
    updateIpPacket L fs curSec sp ip dir s = (decodeIp curSec sp ip dir).dispatch L fs s := by
  unfold updateIpPacket decodeIp
  dsimp only
  by_cases htransport : isTransport sp ip
  · rw [if_pos htransport, if_neg (by unfold isTransport at htransport; tauto)]
    unfold Packet.ofDir portOffset
    split
    · rfl
    · split
      · rfl
      · rfl
  · rw [if_neg htransport, if_pos (by unfold isTransport at htransport; tauto)]
    rfl

/-- `UpdatePacket` decodes the headers, and calls the core on what it decoded. -/
theorem updatePacket_eq_decode (L : Limits) (fs : ProcFs) (captureMode : ℕ) (curSec : Int)
    (sp : ℕ → BYTE) (currentInterface : String) (dir : ℕ) (bCooked : Bool) (s : State) :
    updatePacket L fs captureMode curSec sp currentInterface dir bCooked s =
      (decode captureMode curSec sp currentInterface dir bCooked).bind
        (Decoded.dispatch L fs s) := by
  unfold updatePacket decode decodeFrame
  split
  · rfl
  · split
    · by_cases h45 : sp 0 = 0x45
      · rw [if_neg (by simp [h45]), if_pos h45, updateIpPacket_eq_decodeIp]
        rfl
      · rw [if_pos h45, if_neg h45]
        rfl
    · dsimp only
      generalize readWord sp ((if bCooked = true then 2 else 0) + 12) = etherProtocol
      by_cases hip : etherProtocol = 0x0008
      · rw [if_neg (by simp [hip]), if_pos hip, updateIpPacket_eq_decodeIp]
        rfl
      · rw [if_pos hip, if_neg hip]
        split
        · rfl
        · rfl

/-! ## Byte order -/

theorem readWord_toNat (sp : ℕ → BYTE) (i : ℕ) :
    (readWord sp i).toNat = (sp i).toNat + (sp (i + 1)).toNat * 256 := by
  have hi : (sp i).toNat < 256 := (sp i).toNat_lt
  have hi' : (sp (i + 1)).toNat < 256 := (sp (i + 1)).toNat_lt
  have hshift : (sp (i + 1)).toNat <<< 8 % 65536 = (sp (i + 1)).toNat <<< 8 := by
    rw [Nat.shiftLeft_eq]
    omega
  simp only [readWord, UInt16.toNat_or, UInt8.toNat_toUInt16, UInt16.toNat_shiftLeft,
    UInt16.toNat_ofNat, Nat.reducePow, Nat.reduceMod, hshift]
  rw [Nat.or_comm, ← Nat.shiftLeft_add_eq_or_of_lt (by omega), Nat.shiftLeft_eq]
  omega

theorem readDword_toNat (sp : ℕ → BYTE) (i : ℕ) :
    (readDword sp i).toNat = (readWord sp i).toNat + (readWord sp (i + 2)).toNat * 65536 := by
  have hi : (readWord sp i).toNat < 65536 := (readWord sp i).toNat_lt
  have hi' : (readWord sp (i + 2)).toNat < 65536 := (readWord sp (i + 2)).toNat_lt
  have hshift : (readWord sp (i + 2)).toNat <<< 16 % 4294967296 =
      (readWord sp (i + 2)).toNat <<< 16 := by
    rw [Nat.shiftLeft_eq]
    omega
  simp only [readDword, UInt32.toNat_or, UInt16.toNat_toUInt32, UInt32.toNat_shiftLeft,
    UInt32.toNat_ofNat, Nat.reducePow, Nat.reduceMod, hshift]
  rw [Nat.or_comm, ← Nat.shiftLeft_add_eq_or_of_lt (by omega), Nat.shiftLeft_eq]
  omega

theorem swapPort_toNat (port : WORD) :
    (swapPort port).toNat = port.toNat % 256 * 256 + port.toNat / 256 := by
  have hlt : port.toNat < 65536 := port.toNat_lt
  have hhigh : (port.toNat &&& 65280) >>> 8 = port.toNat / 256 := by
    rw [Nat.shiftRight_and_distrib, Nat.shiftRight_eq_div_pow]
    exact Nat.and_two_pow_sub_one_of_lt_two_pow (n := 8) (by omega)
  have hlow : port.toNat &&& 255 = port.toNat % 256 := Nat.and_two_pow_sub_one_eq_mod _ 8
  have hshift : (port.toNat % 256) <<< 8 % 65536 = (port.toNat % 256) <<< 8 := by
    rw [Nat.shiftLeft_eq]
    omega
  simp only [swapPort, UInt16.toNat_or, UInt16.toNat_shiftRight, UInt16.toNat_and,
    UInt16.toNat_shiftLeft, UInt16.toNat_ofNat, Nat.reducePow, Nat.reduceMod, hhigh, hlow, hshift]
  rw [Nat.or_comm, ← Nat.shiftLeft_add_eq_or_of_lt (by omega), Nat.shiftLeft_eq]

/-! ## Frames that carry a packet -/

/-- How the link layer frames an IP packet: the two-byte protocol field is the
last of either header. -/
inductive Link where
  | ethernet
  | cooked
deriving DecidableEq, Repr

def Link.headerLength : Link → ℕ
  | .ethernet => 14
  | .cooked => 16

def Link.bCooked : Link → Bool
  | .ethernet => false
  | .cooked => true

/-- An IPv4 TCP or UDP packet, as far as its headers are read; addresses are in
the form `GetIPStr` prints, first octet lowest. -/
structure Ipv4Packet where
  ihl : ℕ
  protocol : ℕ
  srcIP : DWORD
  dstIP : DWORD
  srcPort : WORD
  dstPort : WORD
  five_le_ihl : 5 ≤ ihl
  ihl_lt : ihl < 16
  transport : protocol = protTcp ∨ protocol = protUdp

/-- Octet `k` of an address. -/
def octet (ip : DWORD) (k : ℕ) : BYTE := UInt8.ofNat (ip.toNat / 256 ^ k)

/-- The frame holds the packet: link type, IP header and ports stand where the
protocols put them, most significant byte first. Everything else is free. -/
structure Carries (link : Link) (sp : ℕ → BYTE) (p : Ipv4Packet) : Prop where
  typeHigh : sp (link.headerLength - 2) = 0x08
  typeLow : sp (link.headerLength - 1) = 0x00
  version : sp link.headerLength = UInt8.ofNat (0x40 + p.ihl)
  protocol : sp (link.headerLength + 9) = UInt8.ofNat p.protocol
  srcIP : ∀ k < 4, sp (link.headerLength + 12 + k) = octet p.srcIP k
  dstIP : ∀ k < 4, sp (link.headerLength + 16 + k) = octet p.dstIP k
  srcPort : sp (link.headerLength + 4 * p.ihl) = UInt8.ofNat (p.srcPort.toNat / 256) ∧
    sp (link.headerLength + 4 * p.ihl + 1) = UInt8.ofNat p.srcPort.toNat
  dstPort : sp (link.headerLength + 4 * p.ihl + 2) = UInt8.ofNat (p.dstPort.toNat / 256) ∧
    sp (link.headerLength + 4 * p.ihl + 3) = UInt8.ofNat p.dstPort.toNat

/-- A frame with nothing but the packet's headers, zero elsewhere. -/
def Ipv4Packet.frame (p : Ipv4Packet) (link : Link) (i : ℕ) : BYTE :=
  let ip := link.headerLength
  if i = ip - 2 then 0x08
  else if i = ip then UInt8.ofNat (0x40 + p.ihl)
  else if i = ip + 9 then UInt8.ofNat p.protocol
  else if ip + 12 ≤ i ∧ i < ip + 16 then octet p.srcIP (i - (ip + 12))
  else if ip + 16 ≤ i ∧ i < ip + 20 then octet p.dstIP (i - (ip + 16))
  else if i = ip + 4 * p.ihl then UInt8.ofNat (p.srcPort.toNat / 256)
  else if i = ip + 4 * p.ihl + 1 then UInt8.ofNat p.srcPort.toNat
  else if i = ip + 4 * p.ihl + 2 then UInt8.ofNat (p.dstPort.toNat / 256)
  else if i = ip + 4 * p.ihl + 3 then UInt8.ofNat p.dstPort.toNat
  else 0

/-- With a header of five words at least, no two fields overlap. -/
theorem Ipv4Packet.frame_carries (p : Ipv4Packet) (link : Link) :
    Carries link (p.frame link) p := by
  have hip : 14 ≤ link.headerLength := by
    cases link <;> decide
  have hihl : 5 ≤ p.ihl := p.five_le_ihl
  -- the fields in the order of the frame; each lies behind the ones before it
  constructor
  · unfold frame
    rw [if_pos rfl]
  · unfold frame
    repeat rw [if_neg (by omega)]
  · unfold frame
    rw [if_neg (by omega), if_pos rfl]
  · unfold frame
    rw [if_neg (by omega), if_neg (by omega), if_pos rfl]
  · intro k hk
    unfold frame
    repeat rw [if_neg (by omega)]
    rw [if_pos (by omega), Nat.add_sub_cancel_left]
  · intro k hk
    unfold frame
    repeat rw [if_neg (by omega)]
    rw [if_pos (by omega), Nat.add_sub_cancel_left]
  · unfold frame
    constructor
    · repeat rw [if_neg (by omega)]
      rw [if_pos rfl]
    · repeat rw [if_neg (by omega)]
      rw [if_pos rfl]
  · unfold frame
    constructor
    · repeat rw [if_neg (by omega)]
      rw [if_pos rfl]
    · repeat rw [if_neg (by omega)]
      rw [if_pos rfl]

/-- The packet as the core should see it: the source is the local side of an
uplink packet (1), the destination that of a downlink packet (2). -/
def Ipv4Packet.seen (p : Ipv4Packet) (dir : ℕ) (curSec : Int) : Decoded :=
  Packet.ofDir dir p.srcIP p.dstIP p.srcPort p.dstPort p.protocol curSec

theorem Ipv4Packet.protocol_lt (p : Ipv4Packet) : p.protocol < 256 := by
  rcases p.transport with h | h
  · rw [h]
    decide
  · rw [h]
    decide

/-- The little-endian reading of the four octets is the address. -/
theorem readDword_of_octets {sp : ℕ → BYTE} {i : ℕ} {ip : DWORD}
    (h : ∀ k < 4, sp (i + k) = octet ip k) : readDword sp i = ip := by
  have hlt : ip.toNat < 4294967296 := ip.toNat_lt
  have hbyte : ∀ k < 4, (sp (i + k)).toNat = ip.toNat / 256 ^ k % 256 := by
    intro k hk
    rw [h k hk, octet, UInt8.toNat_ofNat']
  apply UInt32.toNat_inj.mp
  rw [readDword_toNat, readWord_toNat, readWord_toNat]
  have h₀ : (sp i).toNat = ip.toNat / 1 % 256 := hbyte 0 (by decide)
  have h₁ : (sp (i + 1)).toNat = ip.toNat / 256 % 256 := hbyte 1 (by decide)
  have h₂ : (sp (i + 2)).toNat = ip.toNat / 65536 % 256 := hbyte 2 (by decide)
  have h₃ : (sp (i + 2 + 1)).toNat = ip.toNat / 16777216 % 256 := hbyte 3 (by decide)
  omega

/-- The exchange undoes the little-endian reading of a port. -/
theorem swapPort_readWord {sp : ℕ → BYTE} {i : ℕ} {port : WORD}
    (h : sp i = UInt8.ofNat (port.toNat / 256) ∧ sp (i + 1) = UInt8.ofNat port.toNat) :
    swapPort (readWord sp i) = port := by
  have hlt : port.toNat < 65536 := port.toNat_lt
  apply UInt16.toNat_inj.mp
  have hhigh : (sp i).toNat = port.toNat / 256 := by
    rw [h.1, UInt8.toNat_ofNat']
    exact Nat.mod_eq_of_lt (by omega)
  have hlow : (sp (i + 1)).toNat = port.toNat % 256 := by
    rw [h.2, UInt8.toNat_ofNat']
  rw [swapPort_toNat, readWord_toNat]
  omega

theorem Carries.portOffset_eq {link : Link} {sp : ℕ → BYTE} {p : Ipv4Packet}
    (h : Carries link sp p) :
    portOffset sp link.headerLength = link.headerLength + 4 * p.ihl := by
  have hihl : p.ihl < 16 := p.ihl_lt
  have hnibble : (sp link.headerLength &&& 0x0F).toNat = p.ihl := by
    rw [h.version, UInt8.toNat_and, UInt8.toNat_ofNat']
    show (0x40 + p.ihl) % 256 &&& 2 ^ 4 - 1 = p.ihl
    rw [Nat.and_two_pow_sub_one_eq_mod]
    omega
  unfold portOffset
  rw [hnibble]

theorem Carries.etherProtocol_eq {link : Link} {sp : ℕ → BYTE} {p : Ipv4Packet}
    (h : Carries link sp p) : readWord sp (link.headerLength - 2) = 0x0008 := by
  have hnext : link.headerLength - 2 + 1 = link.headerLength - 1 := by
    cases link <;> rfl
  unfold readWord
  rw [hnext, h.typeHigh, h.typeLow]
  rfl

/-- What is decoded from a frame: the packet, with the destination port lost. -/
theorem decode_carried {captureMode : ℕ} {currentInterface : String} {link : Link}
    {sp : ℕ → BYTE} {p : Ipv4Packet}
    (hmode : captureMode = capLinuxMmap ∨ captureMode = capLinuxStandard)
    (hdev : currentInterface ≠ "vsnet0") (h : Carries link sp p) (curSec : Int) (dir : ℕ) :
    decode captureMode curSec sp currentInterface dir link.bCooked =
      .ok (Packet.ofDir dir p.srcIP p.dstIP p.srcPort (swapPort p.srcPort) p.protocol curSec) := by
  have hbase : (if link.bCooked = true then 2 else 0) + 14 = link.headerLength := by
    cases link <;> rfl
  have htype : (if link.bCooked = true then 2 else 0) + 12 = link.headerLength - 2 := by
    cases link <;> rfl
  have hprotocol : (sp (link.headerLength + 9)).toNat = p.protocol := by
    rw [h.protocol, UInt8.toNat_ofNat']
    exact Nat.mod_eq_of_lt p.protocol_lt
  have htransport : isTransport sp link.headerLength := by
    unfold isTransport
    rw [hprotocol]
    exact p.transport
  unfold decode decodeFrame
  rw [if_neg (by tauto), if_neg hdev]
  dsimp only
  rw [htype, hbase, if_pos h.etherProtocol_eq]
  unfold decodeIp
  rw [if_pos htransport]
  dsimp only
  rw [h.portOffset_eq, swapPort_readWord h.srcPort, readDword_of_octets h.srcIP,
    readDword_of_octets h.dstIP, hprotocol]

/-- `UpdatePacket` calls the core with the packet's own addresses and ports
exactly when the destination port is the source port with its bytes exchanged. -/
theorem updatePacket_decodes_iff {captureMode : ℕ} {currentInterface : String} {link : Link}
    {sp : ℕ → BYTE} {p : Ipv4Packet} {dir : ℕ}
    (hmode : captureMode = capLinuxMmap ∨ captureMode = capLinuxStandard)
    (hdev : currentInterface ≠ "vsnet0") (h : Carries link sp p) (hdir : dir = 1 ∨ dir = 2)
    (curSec : Int) :
    (∀ L fs s, updatePacket L fs captureMode curSec sp currentInterface dir link.bCooked s =
        (decode captureMode curSec sp currentInterface dir link.bCooked).bind
          (Decoded.dispatch L fs s)) ∧
      (decode captureMode curSec sp currentInterface dir link.bCooked =
          .ok (p.seen dir curSec) ↔ p.dstPort = swapPort p.srcPort) := by
  refine ⟨fun L fs s => updatePacket_eq_decode L fs captureMode curSec sp _ dir _ s, ?_⟩
  rw [decode_carried hmode hdev h curSec dir]
  unfold Ipv4Packet.seen
  constructor
  · intro heq
    have heq := Except.ok.inj heq
    rcases hdir with rfl | rfl
    · injection heq with hpkt
      exact (Packet.mk.inj hpkt).2.2.1.symm
    · injection heq with hpkt
      exact (Packet.mk.inj hpkt).1.symm
  · intro hport
    rw [hport]

/-- From port 13568 (`0x3500`) to port 53 (`0x0035`). -/
def Ipv4Packet.mirrored : Ipv4Packet :=
  ⟨5, protUdp, 0x0200000A, 0x08080808, 13568, 53, by decide, by decide, Or.inr rfl⟩

theorem updatePacket_decodes_mirrored :
    decode capLinuxMmap 0 (Ipv4Packet.mirrored.frame .ethernet) "rmnet0" 1 false =
      .ok (Ipv4Packet.mirrored.seen 1 0) :=
  (updatePacket_decodes_iff (Or.inl rfl) (by decide)
    (Ipv4Packet.mirrored.frame_carries .ethernet) (Or.inl rfl) 0).2.mpr (by decide)

/-- From port 40000 to port 443. -/
def Ipv4Packet.https : Ipv4Packet :=
  ⟨5, protTcp, 0x0200000A, 0x22D8B85D, 40000, 443, by decide, by decide, Or.inl rfl⟩

/-- An uplink packet to port 443 is charged as one to port 16540. -/
theorem decode_https_ne_seen :
    ¬ ∀ (captureMode : ℕ) (curSec : Int) (sp : ℕ → BYTE) (currentInterface : String) (dir : ℕ)
      (link : Link) (p : Ipv4Packet),
      (captureMode = capLinuxMmap ∨ captureMode = capLinuxStandard) →
      currentInterface ≠ "vsnet0" → Carries link sp p → (dir = 1 ∨ dir = 2) →
      decode captureMode curSec sp currentInterface dir link.bCooked =
        .ok (p.seen dir curSec) := by
  intro hall
  have hseen := hall capLinuxMmap 0 (Ipv4Packet.https.frame .ethernet) "rmnet0" 1 .ethernet
    Ipv4Packet.https (Or.inl rfl) (by decide) (Ipv4Packet.https.frame_carries .ethernet)
    (Or.inl rfl)
  rw [decode_carried (Or.inl rfl) (by decide) (Ipv4Packet.https.frame_carries .ethernet)] at hseen
  revert hseen
  decide

end MobiPerf.SocketProc
