import MobiPerf.Capture.FilterKernel
import MobiPerf.Lib.SharedRing
import MobiPerf.Lib.Transition

/-!
# Capture.PacketRing — captures over a memory-mapped ring

The kernel puts packets into a ring of frames and `pcap_read_linux_mmap` takes them
out, frame by frame; `pcap_setfilter_linux_mmap` exchanges the filter in between.
Packets arrive at any time: while a frame is read, between two instructions of
`bpf_filter`, while the filter is attached and while the ring is searched for frames
from before it. A filter that does not return keeps the program where it is, and so
does one that runs into what C leaves undefined.

`use_bpf` is 0 while `bpf_filter` decides about every packet, and 1 while the kernel
does; a larger value is one more than the number of frames that `bpf_filter` still
has to look at. `arrived_eq` says that frames are taken once and in order, and
`taken_filtered` that every packet that is passed on while a filter is installed has
been accepted by that filter.
-/

namespace MobiPerf.Capture

open Lib SocketProc

/-! ## Frames -/

/-- `struct sockaddr_ll`, as far as it is read. -/
structure SockaddrLl where
  sllPkttype : UInt8
  sllIfindex : ℤ
  sllHatype : UInt16
  sllHalen : UInt8
  sllAddr : Fin 8 → UInt8
  sllProtocol : UInt16

def packetOutgoing : UInt8 := 4

/-- A frame header, and the bytes from `tp_mac` on. `tpFrac` is `tp_usec` or
`tp_nsec`. -/
structure RingFrame where
  tpLen : UInt32
  tpMac : UInt32
  tpSnaplen : UInt32
  tpSec : UInt32
  tpFrac : UInt32
  tpVlanTci : UInt16
  sll : SockaddrLl
  data : Bytes
  length : data.length = tpSnaplen.toNat

inductive TpacketVersion where
  | v1
  | v2
deriving DecidableEq, Repr

inductive PcapDirection where
  | inout
  | in
  | out
deriving DecidableEq, Repr

/-- The fields of `pcap_t` that stay. `room` is
`TPACKET_ALIGN(tp_hdrlen) + sizeof(struct sockaddr_ll)`. -/
structure RingHandle where
  cooked : Bool
  tpVersion : TpacketVersion
  room : ℕ
  bufsize : UInt32
  snapshot : UInt32
  direction : PcapDirection
  loIfindex : ℤ
  cc : ℕ

/-- What the callback gets, with the direction and `bCooked` for `UpdatePacket`. -/
structure Delivery where
  tvSec : UInt32
  tvUsec : UInt32
  caplen : UInt32
  len : UInt32
  bytes : Bytes
  dir : ℕ
  bCooked : Bool

/-- `goto skip`, `return -1`, or the callback. -/
inductive Fate where
  | skip
  | fail
  | pass (d : Delivery)

/-! ## Reading a frame -/

def be16 (v : UInt16) : Bytes := [(v >>> 8).toUInt8, v.toUInt8]

def mapPacketTypeToSllType (sllPkttype : UInt8) : UInt16 :=
  match sllPkttype with
  | 0 => 0
  | 1 => 1
  | 2 => 2
  | 3 => 3
  | 4 => 4
  | _ => 0xffff

/-- The fake header of a cooked packet. -/
def SockaddrLl.header (sll : SockaddrLl) : Bytes :=
  be16 (mapPacketTypeToSllType sll.sllPkttype) ++ be16 sll.sllHatype ++
    be16 sll.sllHalen.toUInt16 ++ List.ofFn sll.sllAddr ++ be16 sll.sllProtocol

namespace RingHandle

variable (h : RingHandle)

/-- `dir`, or the packet is not wanted. -/
def dirOf (sll : SockaddrLl) : Option ℕ :=
  if sll.sllPkttype = packetOutgoing then
    if sll.sllIfindex = h.loIfindex then none
    else if h.direction = .in then none
    else some 1
  else if h.direction = .out then none
  else some 2

/-- The fake header; `none` is "cooked-mode frame doesn't have room for sll header". -/
def cook (fr : RingFrame) : Option (Bytes × UInt32 × UInt32) :=
  if h.cooked then
    if fr.tpMac.toNat < h.room + 16 then none
    else some (fr.sll.header ++ fr.data, fr.tpSnaplen + sllHdrLen, fr.tpLen + sllHdrLen)
  else some (fr.data, fr.tpSnaplen, fr.tpLen)

/-- The tag that the kernel has taken out is put back behind the addresses. -/
def tagVlan (fr : RingFrame) (p : Bytes × UInt32 × UInt32) : Bytes × UInt32 × UInt32 :=
  if h.tpVersion = .v2 ∧ fr.tpVlanTci ≠ 0 ∧ fr.tpSnaplen ≥ 12 then
    (p.1.take 12 ++ be16 0x8100 ++ be16 fr.tpVlanTci ++ p.1.drop 12, p.2.1 + 4, p.2.2 + 4)
  else p

def deliver (fr : RingFrame) (dir : ℕ) : Option Delivery :=
  (h.cook fr).map fun p =>
    let (bytes, caplen, len) := h.tagVlan fr p
    { tvSec := fr.tpSec
      tvUsec := if h.tpVersion = .v2 then fr.tpFrac / 1000 else fr.tpFrac
      caplen := if caplen > h.snapshot then h.snapshot else caplen
      len := len
      bytes := bytes
      dir := dir
      bCooked := h.cooked }

/-- Behind the filter: the checks of the direction, and the callback. -/
def fate (fr : RingFrame) : Fate :=
  match h.dirOf fr.sll with
  | none => .skip
  | some dir => match h.deliver fr dir with
    | none => .fail
    | some d => .pass d

end RingHandle

/-! ## The packet that the kernel's filter has seen -/

/-- The packet that the callback gets, to a filter. -/
def Delivery.env (d : Delivery) : Env := userland (d.bytes.take d.caplen.toNat) d.len

def SockaddrLl.sllHeader (sll : SockaddrLl) : SllHeader where
  bytes := sll.header
  length := by simp [header, be16]

/-- No tag is put back, and nothing is cut off. -/
structure RingHandle.Whole (h : RingHandle) (fr : RingFrame) (d : Delivery) : Prop where
  untagged : ¬ (h.tpVersion = .v2 ∧ fr.tpVlanTci ≠ 0 ∧ fr.tpSnaplen ≥ 12)
  uncut : d.caplen.toNat = d.bytes.length

section Kernel

variable {h : RingHandle} {fr : RingFrame} {dir : ℕ} {d : Delivery}

/-- A packet that is neither cut nor tagged is the frame as the library presents it. -/
theorem RingHandle.Whole.env_eq (hwhole : h.Whole fr d) (hd : h.deliver fr dir = some d) :
    d.env = presented h.cooked fr.sll.sllHeader fr.data fr.tpLen := by
  obtain ⟨p, hcook, rfl⟩ := Option.map_eq_some_iff.mp hd
  have htag : h.tagVlan fr p = p := if_neg hwhole.untagged
  have huncut := hwhole.uncut
  rw [Delivery.env, huncut, List.take_length]
  simp only [htag]
  unfold cook at hcook
  unfold presented
  split at hcook
  · rename_i hc
    split at hcook
    · cases hcook
    · cases hcook
      rw [if_pos hc]
      rfl
  · rename_i hc
    cases hcook
    rw [if_neg hc]

def cookedHandle : RingHandle where
  cooked := true
  tpVersion := .v2
  room := 52
  bufsize := 2048
  snapshot := 96
  direction := .inout
  loIfindex := 1
  cc := 2

/-- The first bytes of an IPv4 packet. -/
def cookedFrame : RingFrame where
  tpLen := 40
  tpMac := 84
  tpSnaplen := 4
  tpSec := 5
  tpFrac := 7000
  tpVlanTci := 0
  sll := ⟨0, 2, 1, 6, fun _ => 0, 0x800⟩
  data := [0x45, 0, 0, 40]
  length := rfl

end Kernel

/-! ## Filtering or not -/

/-- `run_bpf`, and `use_bpf` behind it. -/
def runBpf (useBpf : ℕ) : Bool × ℕ :=
  if useBpf = 0 then (true, 0)
  else if useBpf > 1 then (true, useBpf - 1)
  else (false, useBpf)

/-! ## The capture -/

/-- Where the program is. -/
inductive RingMode where
  | idle
  /-- waiting in `poll` -/
  | polling (maxPackets : ℤ)
  /-- at the head of the loop -/
  | reading (pkts : ℕ) (maxPackets : ℤ)
  /-- the frame at `offset` has been found -/
  | holding (pkts : ℕ) (maxPackets : ℤ)
  /-- `bpf_filter` runs over that frame -/
  | filtering (pkts : ℕ) (maxPackets : ℤ) (st : FilterState)
  /-- at `skip:` -/
  | skipping (pkts : ℕ) (maxPackets : ℤ)
  /-- the filter is installed and not yet attached -/
  | attaching
  /-- the ring is walked backward, from `offset`, after `n` free frames -/
  | walking (offset : ℕ) (n : ℕ)

/-- A frame that has been taken, the filter at that time and what has been passed on. -/
structure TakenFrame where
  frame : RingFrame
  fcode : Option (List Insn)
  passed : Option Delivery

structure RingCapture where
  ring : SharedRing RingFrame
  /-- the frame that the kernel fills next -/
  kernelHead : ℕ
  /-- the filter of the socket -/
  attached : Option (List Insn)
  offset : ℕ
  useBpf : ℕ
  fcode : Option (List Insn)
  breakLoop : Bool
  mode : RingMode
  /-- the last return value -/
  ret : ℤ
  /-- the frames that the kernel has filled -/
  arrived : List RingFrame
  taken : List TakenFrame

/-- What `poll` and the checks behind it come to. -/
inductive Polled where
  | ready
  | interrupted
  | exitFlag
  | error
deriving DecidableEq, Repr

/-- How `set_kernel_filter` ends. -/
inductive AttachEnd where
  | ok
  | nonFatal
  | fatal
deriving DecidableEq, Repr

inductive RingAct where
  /-- a packet arrives -/
  | arrive (fr : RingFrame)
  | breakloop
  /-- `pcap_read_linux_mmap` is called -/
  | read (maxPackets : ℤ)
  | poll (p : Polled)
  /-- the program goes on -/
  | go
  /-- `pcap_setfilter_linux_mmap` is called -/
  | setfilter (filter : List Insn)
  | attachTotal
  /-- the filter is attached, or not; then the old one is detached, if that works -/
  | attach (a : AttachEnd) (reset : Bool)

def pcapError : ℤ := -1
def pcapErrorBreak : ℤ := -2

def totalFcode : List Insn := [⟨bpfRet ||| bpfK, 0, 0, 0⟩]

namespace RingCapture

variable (h : RingHandle) (kernel : List Insn → RingFrame → Bool)
  (scratch : Fin bpfMemwords → UInt32)

def returns (s : RingCapture) (ret : ℤ) : RingCapture := { s with mode := .idle, ret := ret }

/-- A packet that the filter of the socket accepts is put into the ring, if there is
room; otherwise it is dropped. -/
def arrive (s : RingCapture) (fr : RingFrame) : RingCapture :=
  if s.attached.all (kernel · fr) && !s.ring.full s.kernelHead then
    { s with
      ring := s.ring.fill s.kernelHead fr
      kernelHead := (s.kernelHead + 1) % h.cc
      arrived := s.arrived ++ [fr] }
  else s

def read (s : RingCapture) (maxPackets : ℤ) : RingCapture :=
  { s with mode := if s.ring.full s.offset then .reading 0 maxPackets else .polling maxPackets }

/-- The loop around `poll`. -/
def poll (s : RingCapture) (maxPackets : ℤ) : Polled → RingCapture
  | .exitFlag => { s with breakLoop := false }.returns pcapErrorBreak
  | .error => s.returns pcapError
  | .ready =>
    if s.breakLoop then { s with breakLoop := false }.returns pcapErrorBreak
    else { s with mode := .reading 0 maxPackets }
  | .interrupted =>
    if s.breakLoop then { s with breakLoop := false }.returns pcapErrorBreak else s

/-- The condition of the loop, and the test of the frame. -/
def look (s : RingCapture) (pkts : ℕ) (maxPackets : ℤ) : RingCapture :=
  if pkts < maxPackets ∨ maxPackets ≤ 0 then
    if s.ring.full s.offset then { s with mode := .holding pkts maxPackets } else s.returns pkts
  else s.returns pkts

/-- What happens to the frame at `offset`. -/
def settle (s : RingCapture) (pkts : ℕ) (maxPackets : ℤ) : Fate → RingCapture
  | .fail => s.returns pcapError
  | .skip =>
    { s with
      mode := .skipping pkts maxPackets
      taken := s.taken ++ [⟨s.ring.frame s.offset, s.fcode, none⟩] }
  | .pass d =>
    { s with
      mode := .skipping (pkts + 1) maxPackets
      taken := s.taken ++ [⟨s.ring.frame s.offset, s.fcode, some d⟩] }

/-- The sanity check and `run_bpf`; the scratch memory of `bpf_filter` holds `scratch`. -/
def take (s : RingCapture) (pkts : ℕ) (maxPackets : ℤ) : RingCapture :=
  let fr := s.ring.frame s.offset
  if fr.tpMac + fr.tpSnaplen > h.bufsize then s.returns pcapError
  else
    let run := runBpf s.useBpf
    if run.1 && s.fcode.isSome then
      { s with useBpf := run.2, mode := .filtering pkts maxPackets (.start scratch) }
    else { s with useBpf := run.2 }.settle pkts maxPackets (h.fate fr)

/-- A pass of the loop of `bpf_filter`, over the captured bytes; on a cooked socket the
fake header is not yet there. There is no step from a fault. -/
def filter (s : RingCapture) (pkts : ℕ) (maxPackets : ℤ) (st : FilterState) : Option RingCapture :=
  let fr := s.ring.frame s.offset
  s.fcode.bind fun f => match filterStep (userland fr.data fr.tpLen) f st with
    | .next st => some { s with mode := .filtering pkts maxPackets st }
    | .halt (.ret v) => some (s.settle pkts maxPackets (if v = 0 then .skip else h.fate fr))
    | .halt (.fault _) => none

/-- The frame goes back to the kernel. -/
def skip (s : RingCapture) (pkts : ℕ) (maxPackets : ℤ) : RingCapture :=
  let s := { s with
    ring := s.ring.clear s.offset
    offset := if s.offset + 1 ≥ h.cc then 0 else s.offset + 1 }
  if s.breakLoop then { s with breakLoop := false }.returns pcapErrorBreak
  else { s with mode := .reading pkts maxPackets }

/-- `if (--handle->offset < 0) handle->offset = handle->cc - 1`. -/
def back (offset : ℕ) : ℕ := if offset = 0 then h.cc - 1 else offset - 1

/-- The loop that counts free frames. -/
def walk (s : RingCapture) (offset n : ℕ) : RingCapture :=
  if n < h.cc ∧ s.ring.full (back h offset) = false then
    { s with mode := .walking (back h offset) (n + 1) }
  else { s with useBpf := 1 + (h.cc - n) }.returns 0

/-- `pcap_setfilter_linux_common` up to `set_kernel_filter`. -/
def setfilter (s : RingCapture) (filter : List Insn) : RingCapture :=
  if bpfValidate filter then { s with fcode := some filter, useBpf := 0, mode := .attaching }
  else s.returns pcapError

/-- The program for the kernel; `none` where filtering is left to userland. -/
def kernelProgram (s : RingCapture) : Option (List Insn) :=
  s.fcode.bind fun f => if f.length > 65535 then none else fixProgram h.cooked true f

/-- `reset_kernel_filter`, whose failure is not looked at. -/
def resetKernelFilter (s : RingCapture) (reset : Bool) : RingCapture :=
  if reset then { s with attached := none } else s

def attach (s : RingCapture) (a : AttachEnd) (reset : Bool) : RingCapture :=
  match s.kernelProgram h, a with
  | none, _ => (s.resetKernelFilter reset).returns 0
  | some k, .ok =>
    { s with attached := some k, useBpf := 1, mode := .walking (back h s.offset) 0 }
  | some _, .nonFatal => (s.resetKernelFilter reset).returns 0
  | some _, .fatal => (s.resetKernelFilter reset).returns pcapError

def step : RingAct → RingCapture → Option RingCapture
  | .arrive fr, s => some (s.arrive h kernel fr)
  | .breakloop, s => some { s with breakLoop := true }
  | .read maxPackets, s => match s.mode with
    | .idle => some (s.read maxPackets)
    | _ => none
  | .poll p, s => match s.mode with
    | .polling maxPackets => some (s.poll maxPackets p)
    | _ => none
  | .go, s => match s.mode with
    | .reading pkts maxPackets => some (s.look pkts maxPackets)
    | .holding pkts maxPackets => some (s.take h scratch pkts maxPackets)
    | .filtering pkts maxPackets st => s.filter h pkts maxPackets st
    | .skipping pkts maxPackets => some (s.skip h pkts maxPackets)
    | .walking offset n => some (s.walk h offset n)
    | _ => none
  | .setfilter filter, s => match s.mode with
    | .idle => some (s.setfilter filter)
    | _ => none
  | .attachTotal, s => match s.mode with
    | .attaching => (s.kernelProgram h).map fun _ => { s with attached := some totalFcode }
    | _ => none
  | .attach a reset, s => match s.mode with
    | .attaching => some (s.attach h a reset)
    | _ => none

/-- An empty ring, and no filter. -/
def Init (s : RingCapture) : Prop :=
  (∀ i, s.ring.full i = false) ∧ s.kernelHead = s.offset ∧ s.offset < h.cc ∧ s.attached = none ∧
    s.useBpf = 0 ∧ s.fcode = none ∧ s.mode = .idle ∧ s.arrived = [] ∧ s.taken = []

/-- The kernel, the program and the filters that are set, in any order. -/
def system : System RingCapture RingAct where
  Init := Init h
  step := step h kernel scratch

/-- The packet is in its frame, with room for a fake header in front of it. -/
def HasRoom (fr : RingFrame) : Prop :=
  ¬ fr.tpMac + fr.tpSnaplen > h.bufsize ∧ (h.cooked → h.room + 16 ≤ fr.tpMac.toNat)

/-- The kernel leaves room. -/
def Roomy : RingAct → RingCapture → Prop
  | .arrive fr, _ => HasRoom h fr
  | _, _ => True

instance (fr : RingFrame) : Decidable (HasRoom h fr) := inferInstanceAs (Decidable (_ ∧ _))

instance (i : RingAct) (s : RingCapture) : Decidable (Roomy h i s) :=
  match i with
  | .arrive fr => inferInstanceAs (Decidable (HasRoom h fr))
  | .breakloop | .read _ | .poll _ | .go | .setfilter _ | .attachTotal | .attach _ _ =>
    inferInstanceAs (Decidable True)

/-! ## What a step can do -/

section Steps

variable {h kernel scratch} {s s' : RingCapture}

/-- The program is neither at a frame nor exchanging the filter. -/
def Calm : RingMode → Prop
  | .idle => True
  | .polling _ => True
  | .reading .. => True
  | _ => False

/-- The program waits, returns, or finds a frame. -/
structure Waits (s s' : RingCapture) : Prop where
  ring : s'.ring = s.ring
  kernelHead : s'.kernelHead = s.kernelHead
  attached : s'.attached = s.attached
  offset : s'.offset = s.offset
  useBpf : s'.useBpf = s.useBpf
  fcode : s'.fcode = s.fcode
  arrived : s'.arrived = s.arrived
  taken : s'.taken = s.taken
  calm : Calm s.mode
  mode : Calm s'.mode ∨ ∃ pkts maxPackets, s'.mode = .holding pkts maxPackets ∧ s.ring.full s.offset

/-- A call waits in `poll`, returns, or looks at the next frame. -/
theorem waits_read (hmode : s.mode = .idle) (maxPackets : ℤ) : Waits s (s.read maxPackets) := by
  refine ⟨rfl, rfl, rfl, rfl, rfl, rfl, rfl, rfl, by rw [hmode]; trivial, .inl ?_⟩
  unfold RingCapture.read
  split <;> trivial

/-- What `poll` tells decides whether the frame is looked at again. -/
theorem waits_poll {maxPackets : ℤ} (hmode : s.mode = .polling maxPackets) (p : Polled) :
    Waits s (s.poll maxPackets p) := by
  have hcalm : Calm s.mode := by rw [hmode]; trivial
  cases p with
  | exitFlag | error => exact ⟨rfl, rfl, rfl, rfl, rfl, rfl, rfl, rfl, hcalm, .inl trivial⟩
  | ready =>
      simp only [RingCapture.poll]
      split
      · exact ⟨rfl, rfl, rfl, rfl, rfl, rfl, rfl, rfl, hcalm, .inl trivial⟩
      · exact ⟨rfl, rfl, rfl, rfl, rfl, rfl, rfl, rfl, hcalm, .inl trivial⟩
  | interrupted =>
      simp only [RingCapture.poll]
      split
      · exact ⟨rfl, rfl, rfl, rfl, rfl, rfl, rfl, rfl, hcalm, .inl trivial⟩
      · exact ⟨rfl, rfl, rfl, rfl, rfl, rfl, rfl, rfl, hcalm, .inl hcalm⟩

/-- A look at the next frame takes none. -/
theorem waits_look {pkts : ℕ} {maxPackets : ℤ} (hmode : s.mode = .reading pkts maxPackets) :
    Waits s (s.look pkts maxPackets) := by
  have hcalm : Calm s.mode := by rw [hmode]; trivial
  unfold RingCapture.look
  split
  · split
    · rename_i hfull
      exact ⟨rfl, rfl, rfl, rfl, rfl, rfl, rfl, rfl, hcalm, .inr ⟨pkts, maxPackets, rfl, hfull⟩⟩
    · exact ⟨rfl, rfl, rfl, rfl, rfl, rfl, rfl, rfl, hcalm, .inl trivial⟩
  · exact ⟨rfl, rfl, rfl, rfl, rfl, rfl, rfl, rfl, hcalm, .inl trivial⟩

/-- The filter is being exchanged, and is not yet attached. -/
inductive Exchanges (h : RingHandle) (s s' : RingCapture) : Prop where
  | install (hmode : s.mode = .idle) (filter : List Insn)
      (heq : s' = { s with fcode := some filter, useBpf := 0, mode := .attaching })
  | total (hmode : s.mode = .attaching) (heq : s' = { s with attached := some totalFcode })
  | attach (hmode : s.mode = .attaching) (k : List Insn) (hk : s.kernelProgram h = some k)
      (heq : s' = { s with attached := some k, useBpf := 1, mode := .walking (back h s.offset) 0 })
  | giveUp (hmode : s.mode = .attaching) (reset : Bool) (ret : ℤ)
      (heq : s' = (s.resetKernelFilter reset).returns ret)

/-- Setting a filter takes no frame. -/
theorem exchanges_attach (hmode : s.mode = .attaching) (a : AttachEnd) (reset : Bool) :
    Exchanges h s (s.attach h a reset) := by
  unfold RingCapture.attach
  split
  · exact .giveUp hmode reset 0 rfl
  · rename_i k hk
    exact .attach hmode k hk rfl
  · exact .giveUp hmode reset 0 rfl
  · exact .giveUp hmode reset pcapError rfl

/-- A frame is taken, unless it is an error. -/
theorem settle_cases (s : RingCapture) (pkts : ℕ) (maxPackets : ℤ) (fate : Fate) :
    (fate = .fail ∧ s.settle pkts maxPackets fate = s.returns pcapError) ∨
    ∃ passed pkts', (∀ d, passed = some d → fate = .pass d) ∧
      s.settle pkts maxPackets fate =
        { s with
          mode := .skipping pkts' maxPackets
          taken := s.taken ++ [⟨s.ring.frame s.offset, s.fcode, passed⟩] } := by
  cases fate with
  | fail => exact .inl ⟨rfl, rfl⟩
  | skip => exact .inr ⟨none, pkts, fun d hd => (nomatch hd), rfl⟩
  | pass d =>
      refine .inr ⟨some d, pkts + 1, fun d' hd => ?_, rfl⟩
      cases hd
      rfl

variable (h scratch) in
/-- What the frame in hand comes to: an error, the filter's first step, or its
packet. -/
theorem take_cases (s : RingCapture) (pkts : ℕ) (maxPackets : ℤ) :
    ((s.ring.frame s.offset).tpMac + (s.ring.frame s.offset).tpSnaplen > h.bufsize ∧
      s.take h scratch pkts maxPackets = s.returns pcapError) ∨
    (∃ f, s.fcode = some f ∧ s.take h scratch pkts maxPackets =
      { s with
        useBpf := (runBpf s.useBpf).2
        mode := .filtering pkts maxPackets (.start scratch) }) ∨
    (((runBpf s.useBpf).1 = false ∨ s.fcode = none) ∧ s.take h scratch pkts maxPackets =
      { s with useBpf := (runBpf s.useBpf).2 }.settle pkts maxPackets
        (h.fate (s.ring.frame s.offset))) := by
  simp only [take]
  split
  · rename_i hbig
    exact .inl ⟨hbig, rfl⟩
  · split
    · rename_i hrun
      rw [Bool.and_eq_true, Option.isSome_iff_exists] at hrun
      obtain ⟨f, hf⟩ := hrun.2
      exact .inr (.inl ⟨f, hf, rfl⟩)
    · rename_i hrun
      rw [Bool.and_eq_true, not_and_or, Bool.not_eq_true, Option.not_isSome_iff_eq_none] at hrun
      exact .inr (.inr ⟨hrun, rfl⟩)

/-- `bpf_filter` goes on, or it returns. -/
theorem filter_cases {pkts : ℕ} {maxPackets : ℤ} {st : FilterState}
    (hstep : s.filter h pkts maxPackets st = some s') :
    ∃ f fr, s.fcode = some f ∧ fr = s.ring.frame s.offset ∧
      ((∃ st', filterStep (userland fr.data fr.tpLen) f st = .next st' ∧
        s' = { s with mode := .filtering pkts maxPackets st' }) ∨
      ∃ v, filterStep (userland fr.data fr.tpLen) f st = .halt (.ret v) ∧
        s' = s.settle pkts maxPackets (if v = 0 then .skip else h.fate fr)) := by
  obtain ⟨f, hf, hstep⟩ := Option.bind_eq_some_iff.mp hstep
  refine ⟨f, _, hf, rfl, ?_⟩
  split at hstep
  · rename_i st' hnext
    exact .inl ⟨st', hnext, (Option.some.inj hstep).symm⟩
  · rename_i v hret
    exact .inr ⟨v, hret, (Option.some.inj hstep).symm⟩
  · cases hstep

/-- What a step does: a frame arrives, the loop is told to break, or the capture
goes on where it is. -/
theorem step_cases {i : RingAct} (hstep : step h kernel scratch i s = some s') :
    (∃ fr, i = .arrive fr ∧ s' = s.arrive h kernel fr) ∨
    (s' = { s with breakLoop := true }) ∨
    Waits s s' ∨
    (∃ pkts maxPackets, s.mode = .holding pkts maxPackets ∧ s' = s.take h scratch pkts maxPackets) ∨
    (∃ pkts maxPackets st, s.mode = .filtering pkts maxPackets st ∧
      s.filter h pkts maxPackets st = some s') ∨
    (∃ pkts maxPackets, s.mode = .skipping pkts maxPackets ∧ s' = s.skip h pkts maxPackets) ∨
    (∃ offset n, s.mode = .walking offset n ∧ s' = s.walk h offset n) ∨
    Exchanges h s s' := by
  cases i with
  | arrive fr =>
      cases hstep
      exact .inl ⟨fr, rfl, rfl⟩
  | breakloop =>
      cases hstep
      exact .inr (.inl rfl)
  | read maxPackets =>
      simp only [step] at hstep
      split at hstep
      · rename_i hmode
        cases hstep
        exact .inr (.inr (.inl (waits_read hmode maxPackets)))
      · cases hstep
  | poll p =>
      simp only [step] at hstep
      split at hstep
      · rename_i hmode
        cases hstep
        exact .inr (.inr (.inl (waits_poll hmode p)))
      · cases hstep
  -- one step of the program, by the mode it is in
  | go =>
      simp only [step] at hstep
      split at hstep
      · rename_i hmode
        cases hstep
        exact .inr (.inr (.inl (waits_look hmode)))
      · rename_i hmode
        cases hstep
        exact .inr (.inr (.inr (.inl ⟨_, _, hmode, rfl⟩)))
      · rename_i hmode
        exact .inr (.inr (.inr (.inr (.inl ⟨_, _, _, hmode, hstep⟩))))
      · rename_i hmode
        cases hstep
        exact .inr (.inr (.inr (.inr (.inr (.inl ⟨_, _, hmode, rfl⟩)))))
      · rename_i hmode
        cases hstep
        exact .inr (.inr (.inr (.inr (.inr (.inr (.inl ⟨_, _, hmode, rfl⟩))))))
      · cases hstep
  | setfilter filter =>
      simp only [step] at hstep
      split at hstep
      · rename_i hmode
        cases hstep
        unfold setfilter
        -- the filter is installed, or could not be copied
        split
        · exact .inr (.inr (.inr (.inr (.inr (.inr (.inr (.install hmode filter rfl)))))))
        · exact .inr (.inr (.inl ⟨rfl, rfl, rfl, rfl, rfl, rfl, rfl, rfl, by rw [hmode]; trivial,
            .inl trivial⟩))
      · cases hstep
  | attachTotal =>
      simp only [step] at hstep
      split at hstep
      · rename_i hmode
        obtain ⟨k, -, heq⟩ := Option.map_eq_some_iff.mp hstep
        exact .inr (.inr (.inr (.inr (.inr (.inr (.inr (.total hmode heq.symm)))))))
      · cases hstep
  | attach a reset =>
      simp only [step] at hstep
      split at hstep
      · rename_i hmode
        cases hstep
        exact .inr (.inr (.inr (.inr (.inr (.inr (.inr (exchanges_attach hmode a reset)))))))
      · cases hstep

end Steps

/-! ## Frames are taken once and in order -/

section Order

variable {h kernel scratch} {s s' : RingCapture} {q : List RingFrame}

/-- The frames that have not been taken: at `skip:` the first one has. -/
def waiting (s : RingCapture) (q : List RingFrame) : List RingFrame :=
  match s.mode with
  | .skipping .. => q.tail
  | _ => q

/-- The program is at a frame. -/
def AtFrame : RingMode → Prop
  | .holding .. => True
  | .filtering .. => True
  | .skipping .. => True
  | _ => False

/-- The ring holds `q`, and what has arrived has been taken or waits in it. -/
structure InOrder (h : RingHandle) (s : RingCapture) (q : List RingFrame) : Prop where
  holds : s.ring.Holds h.cc s.offset q
  head : s.kernelHead = (s.offset + q.length) % h.cc
  arrived : s.arrived = s.taken.map TakenFrame.frame ++ s.waiting q
  atFrame : AtFrame s.mode → q ≠ []

/-- A step that leaves the ring alone and does not come to or from a frame. -/
theorem InOrder.of_same (hs : s.InOrder h q) (hring : s'.ring = s.ring)
    (hhead : s'.kernelHead = s.kernelHead) (hoffset : s'.offset = s.offset)
    (harrived : s'.arrived = s.arrived) (htaken : s'.taken = s.taken)
    (hwaiting : s'.waiting q = s.waiting q) (hframe : AtFrame s'.mode → q ≠ []) :
    s'.InOrder h q where
  holds := by rw [hring, hoffset]; exact hs.holds
  head := by rw [hhead, hoffset]; exact hs.head
  arrived := by rw [harrived, htaken, hwaiting]; exact hs.arrived
  atFrame := hframe

/-- A frame that arrives waits behind the others. -/
theorem waiting_append (hframe : AtFrame s.mode → q ≠ []) (fr : RingFrame) :
    s.waiting (q ++ [fr]) = s.waiting q ++ [fr] := by
  unfold waiting
  split
  · rename_i hmode
    exact List.tail_append_of_ne_nil (hframe (by rw [hmode]; trivial))
  · rfl

/-- The kernel's frame is free exactly if the ring has room. -/
theorem InOrder.full_head (hs : s.InOrder h q) :
    s.ring.full s.kernelHead = false ↔ q.length < h.cc := by
  rw [hs.head]
  constructor
  · exact hs.holds.length_lt_of_not_full
  · intro hlt
    rw [hs.holds.full _ hlt, decide_eq_false_iff_not]
    exact Nat.lt_irrefl _

variable (kernel) in
/-- An arriving frame is put behind those in the ring, or is dropped. -/
theorem InOrder.arrive (hs : s.InOrder h q) (fr : RingFrame) :
    ∃ q', (s.arrive h kernel fr).InOrder h q' ∧
      (q' = q ∧ s.arrive h kernel fr = s ∨
        q' = q ++ [fr] ∧ s.attached.all (kernel · fr)) := by
  unfold RingCapture.arrive
  split
  · rename_i haccept
    rw [Bool.and_eq_true, Bool.not_eq_true'] at haccept
    have hlt := hs.full_head.mp haccept.2
    refine ⟨q ++ [fr], ⟨?_, ?_, ?_, ?_⟩, .inr ⟨rfl, haccept.1⟩⟩
    · show (s.ring.fill s.kernelHead fr).Holds h.cc s.offset (q ++ [fr])
      rw [hs.head]
      exact hs.holds.fill hlt
    · show (s.kernelHead + 1) % h.cc = _
      rw [hs.head, List.length_append, Nat.mod_add_mod, Nat.add_assoc]
      rfl
    · show s.arrived ++ [fr] = _ ++ s.waiting (q ++ [fr])
      rw [waiting_append hs.atFrame, hs.arrived, List.append_assoc]
    · exact fun _ => List.append_ne_nil_of_right_ne_nil q (List.cons_ne_nil fr [])
  · exact ⟨q, hs, .inl ⟨rfl, rfl⟩⟩

/-- Outside the handling of a frame all of the ring waits. -/
theorem waiting_of_calm (hmode : Calm s.mode) (q : List RingFrame) : s.waiting q = q := by
  unfold waiting
  split
  · rename_i h
    rw [h] at hmode
    cases hmode
  · rfl

/-- Then no frame is in hand. -/
theorem not_atFrame_of_calm {m : RingMode} (hcalm : Calm m) : ¬ AtFrame m := by
  cases m with
  | idle | polling _ | reading _ _ => exact id
  | holding _ _ | filtering _ _ _ | skipping _ _ | attaching | walking _ _ => cases hcalm

/-- Steps that only wait keep the order. -/
theorem InOrder.waits (hs : s.InOrder h q) (hw : Waits s s') : s'.InOrder h q := by
  have hwaiting : s'.waiting q = q := by
    rcases hw.mode with hcalm | ⟨pkts, maxPackets, hmode, -⟩
    · exact waiting_of_calm hcalm q
    · simp only [waiting, hmode]
  refine hs.of_same hw.ring hw.kernelHead hw.offset hw.arrived hw.taken ?_ ?_
  · rw [hwaiting, waiting_of_calm hw.calm]
  · intro hframe
    rcases hw.mode with hcalm | ⟨pkts, maxPackets, -, hfull⟩
    · exact absurd hframe (not_atFrame_of_calm hcalm)
    · obtain ⟨q', rfl⟩ := hs.holds.eq_cons hfull
      exact List.cons_ne_nil _ _

/-- So do those that exchange the filter. -/
theorem InOrder.exchanges (hs : s.InOrder h q) (he : Exchanges h s s') : s'.InOrder h q := by
  cases he with
  | install hmode filter heq =>
      subst heq
      exact hs.of_same rfl rfl rfl rfl rfl (by simp only [waiting, hmode]) (fun h => h.elim)
  | total hmode heq =>
      subst heq
      exact hs.of_same rfl rfl rfl rfl rfl rfl hs.atFrame
  | attach hmode k hk heq =>
      subst heq
      exact hs.of_same rfl rfl rfl rfl rfl (by simp only [waiting, hmode]) (fun h => h.elim)
  | giveUp hmode reset ret heq =>
      subst heq
      cases reset with
      | true =>
          exact hs.of_same rfl rfl rfl rfl rfl (by simp [waiting, returns, hmode])
            (fun h => h.elim)
      | false =>
          exact hs.of_same rfl rfl rfl rfl rfl (by simp [waiting, returns, hmode])
            (fun h => h.elim)

/-- The frame at `offset` is the first one that waits. -/
theorem InOrder.settle (hs : s.InOrder h q) (hmode : AtFrame s.mode) (hwaiting : s.waiting q = q)
    (pkts : ℕ) (maxPackets : ℤ) (fate : Fate) : (s.settle pkts maxPackets fate).InOrder h q := by
  obtain ⟨fr, q', rfl⟩ := List.exists_cons_of_ne_nil (hs.atFrame hmode)
  have hframe : s.ring.frame s.offset = fr := hs.holds.frame_base
  have harrived := hs.arrived
  rw [hwaiting] at harrived
  rcases settle_cases s pkts maxPackets fate with ⟨-, heq⟩ | ⟨passed, pkts', -, heq⟩
  · rw [heq]
    exact hs.of_same rfl rfl rfl rfl rfl hwaiting.symm (fun h => h.elim)
  · rw [heq]
    refine ⟨hs.holds, hs.head, ?_, fun _ => List.cons_ne_nil _ _⟩
    simp [waiting, harrived, hframe]

/-- The frame in hand is taken, or the filter is started on it. -/
theorem InOrder.take (hs : s.InOrder h q) {pkts : ℕ} {maxPackets : ℤ}
    (hmode : s.mode = .holding pkts maxPackets) :
    (s.take h scratch pkts maxPackets).InOrder h q := by
  have hwaiting : s.waiting q = q := by simp only [waiting, hmode]
  have hframe : AtFrame s.mode := by rw [hmode]; trivial
  rcases take_cases h scratch s pkts maxPackets with
    ⟨-, heq⟩ | ⟨f, -, heq⟩ | ⟨-, heq⟩
  · rw [heq]
    exact hs.of_same rfl rfl rfl rfl rfl hwaiting.symm (fun h => h.elim)
  · rw [heq]
    exact hs.of_same rfl rfl rfl rfl rfl hwaiting.symm fun _ => hs.atFrame hframe
  · rw [heq]
    have hs' : InOrder h { s with useBpf := (runBpf s.useBpf).2 } q :=
      hs.of_same rfl rfl rfl rfl rfl rfl hs.atFrame
    exact hs'.settle hframe hwaiting pkts maxPackets _

/-- The filter's steps leave the ring alone until it has decided. -/
theorem InOrder.filter (hs : s.InOrder h q) {pkts : ℕ} {maxPackets : ℤ} {st : FilterState}
    (hmode : s.mode = .filtering pkts maxPackets st)
    (hstep : s.filter h pkts maxPackets st = some s') : s'.InOrder h q := by
  have hwaiting : s.waiting q = q := by simp only [waiting, hmode]
  have hframe : AtFrame s.mode := by rw [hmode]; trivial
  obtain ⟨f, fr, -, -, ⟨st', -, rfl⟩ | ⟨v, -, rfl⟩⟩ := filter_cases hstep
  · exact hs.of_same rfl rfl rfl rfl rfl hwaiting.symm fun _ => hs.atFrame hframe
  · exact hs.settle hframe hwaiting pkts maxPackets _

/-- The frame is given back to the kernel, and the next one is the first. -/
theorem InOrder.skip (hs : s.InOrder h q) {pkts : ℕ} {maxPackets : ℤ}
    (hmode : s.mode = .skipping pkts maxPackets) : (s.skip h pkts maxPackets).InOrder h q.tail := by
  obtain ⟨fr, q', rfl⟩ := List.exists_cons_of_ne_nil (hs.atFrame (by rw [hmode]; trivial))
  have hoffset : (if s.offset + 1 ≥ h.cc then 0 else s.offset + 1) = (s.offset + 1) % h.cc := by
    have hlt := hs.holds.base
    split
    · rw [show s.offset + 1 = h.cc by omega, Nat.mod_self]
    · rw [Nat.mod_eq_of_lt (by omega)]
  have hhead := hs.head
  have harrived := hs.arrived
  simp only [waiting, hmode] at harrived
  rw [List.length_cons, ← SharedRing.position_succ] at hhead
  unfold RingCapture.skip
  simp only [hoffset]
  split
  all_goals
    refine ⟨hs.holds.clear, hhead, harrived, fun h => h.elim⟩

/-- The walk back counts frames and takes none. -/
theorem InOrder.walk (hs : s.InOrder h q) {offset n : ℕ} (hmode : s.mode = .walking offset n) :
    (s.walk h offset n).InOrder h q := by
  unfold RingCapture.walk
  split
  · exact hs.of_same rfl rfl rfl rfl rfl (by simp only [waiting, hmode]) (fun h => h.elim)
  · exact hs.of_same rfl rfl rfl rfl rfl (by simp only [waiting, returns, hmode]) (fun h => h.elim)

/-- Every step keeps the order. -/
theorem InOrder.step {i : RingAct} (hs : s.InOrder h q)
    (hstep : RingCapture.step h kernel scratch i s = some s') : ∃ q', s'.InOrder h q' := by
  rcases step_cases hstep with ⟨fr, -, rfl⟩ | rfl | hw | ⟨pkts, maxPackets, hmode, rfl⟩ |
    ⟨pkts, maxPackets, st, hmode, hfilter⟩ | ⟨pkts, maxPackets, hmode, rfl⟩ |
    ⟨offset, n, hmode, rfl⟩ | he
  · obtain ⟨q', hs', -⟩ := hs.arrive kernel fr
    exact ⟨q', hs'⟩
  · exact ⟨q, hs.of_same rfl rfl rfl rfl rfl rfl hs.atFrame⟩
  · exact ⟨q, hs.waits hw⟩
  · exact ⟨q, hs.take hmode⟩
  · exact ⟨q, hs.filter hmode hfilter⟩
  · exact ⟨q.tail, hs.skip hmode⟩
  · exact ⟨q, hs.walk hmode⟩
  · exact ⟨q, hs.exchanges he⟩

/-- At the start nothing waits. -/
theorem InOrder.init (hinit : Init h s) : s.InOrder h [] := by
  obtain ⟨hfull, hhead, hoffset, -, -, -, hmode, harrived, htaken⟩ := hinit
  refine ⟨.empty hoffset hfull, ?_, ?_, ?_⟩
  · rw [hhead, List.length_nil, SharedRing.position_zero hoffset]
  · rw [harrived, htaken, waiting, hmode]
    rfl
  · rw [hmode]
    exact fun h => h.elim

/-! ### A filter that is set while a packet waits -/

def etherHandle : RingHandle where
  cooked := false
  tpVersion := .v2
  room := 52
  bufsize := 2048
  snapshot := 96
  direction := .inout
  loIfindex := 1
  cc := 2

/-- A frame with an Ethernet header only. -/
def etherFrame (type : UInt8) : RingFrame where
  tpLen := 14
  tpMac := 66
  tpSnaplen := 14
  tpSec := 5
  tpFrac := 7000
  tpVlanTci := 0
  sll := ⟨0, 2, 1, 6, fun _ => 0, 0x800⟩
  data := [1, 2, 3, 4, 5, 6, 1, 2, 3, 4, 5, 7, 8, type]
  length := rfl

/-- A kernel that keeps what the program returns another value than 0 for. -/
def etherKernel (k : List Insn) (fr : RingFrame) : Bool :=
  match bpfFilter k fr.data fr.tpLen noScratch k.length with
  | .halt (.ret v) => v ≠ 0
  | _ => false

def etherStart : RingCapture where
  ring := ⟨fun _ => false, fun _ => etherFrame 0⟩
  kernelHead := 0
  attached := none
  offset := 0
  useBpf := 0
  fcode := none
  breakLoop := false
  mode := .idle
  ret := 0
  arrived := []
  taken := []

/-- ARP is in the ring when a filter for IPv4 is set; while `bpf_filter` runs over it,
ARP and IPv4 arrive, and `bpf_filter` runs over the second frame too. -/
def etherActs : List RingAct :=
  [.arrive (etherFrame 6), .setfilter ipFilter, .attachTotal, .attach .ok true, .go, .read 0, .go,
    .go, .go, .arrive (etherFrame 6), .arrive (etherFrame 0), .go, .go, .go, .go, .go, .go, .go,
      .go]

theorem etherStart_init : Init etherHandle etherStart :=
  ⟨fun _ => rfl, rfl, by decide, rfl, rfl, rfl, rfl, rfl, rfl⟩

/-- In every order of arrivals and steps of the program: the frames that have arrived
are those that have been taken, each once and in order, and those that wait in the
ring; and a packet that the filter accepts is dropped only if the ring is full. -/
theorem arrived_eq (hreach : (system h kernel scratch).Reachable s) :
    ∃ q, s.ring.Holds h.cc s.offset q ∧
      s.arrived = s.taken.map TakenFrame.frame ++ s.waiting q ∧
      ∀ fr, s.attached.all (kernel · fr) →
        (s.arrive h kernel fr).arrived =
          if q.length < h.cc then s.arrived ++ [fr] else s.arrived := by
  obtain ⟨q, hs⟩ := hreach.invariant (P := fun s => ∃ q, s.InOrder h q)
    (fun s hinit => ⟨[], InOrder.init hinit⟩) fun i s s' ⟨q, hs⟩ hstep => hs.step hstep
  refine ⟨q, hs.holds, hs.arrived, fun fr haccept => ?_⟩
  have hfull := hs.full_head
  unfold RingCapture.arrive
  rw [haccept, Bool.true_and]
  by_cases hlt : q.length < h.cc
  · rw [if_pos hlt, hfull.mpr hlt]
    rfl
  · rw [if_neg hlt, Bool.eq_true_of_not_eq_false fun hf => hlt (hfull.mp hf)]
    rfl

theorem arrived_eq_etherActs :
    ∃ s, (system etherHandle etherKernel noScratch).run etherActs etherStart = some s ∧
      s.arrived.length = 2 ∧
      ∃ q, s.ring.Holds etherHandle.cc s.offset q ∧
        s.arrived = s.taken.map TakenFrame.frame ++ s.waiting q ∧
        ∀ fr, s.attached.all (etherKernel · fr) →
          (s.arrive etherHandle etherKernel fr).arrived =
            if q.length < etherHandle.cc then s.arrived ++ [fr] else s.arrived := by
  have hrun : ∃ s, (system etherHandle etherKernel noScratch).run etherActs etherStart = some s ∧
      s.arrived.length = 2 := ⟨_, rfl, rfl⟩
  obtain ⟨s, hs, hlen⟩ := hrun
  exact ⟨s, hs, hlen, arrived_eq (System.reachable_of_run etherStart_init hs)⟩

end Order

/-! ## What is passed on has been accepted by the filter -/

section Filtering

variable {h kernel scratch} {s s' : RingCapture} {q : List RingFrame}

/-- From the index `u` on the frames have been accepted by the kernel's filter. -/
def Known (h : RingHandle) (kernel : List Insn → RingFrame → Bool) (s : RingCapture)
    (frames : List RingFrame) (u : ℕ) : Prop :=
  ∀ k, s.kernelProgram h = some k → ∀ j fr, frames[j]? = some fr → u ≤ j → kernel k fr

/-- `bpf_filter` returns a value other than 0 for the captured bytes. -/
def BpfAccepts (scratch : Fin bpfMemwords → UInt32) (f : List Insn) (fr : RingFrame) : Prop :=
  ∃ v, v ≠ 0 ∧ (filterStep (userland fr.data fr.tpLen) f).Yields (.start scratch) (.ret v)

/-- `bpf_filter` has accepted the frame, or the kernel has. -/
def Accepted (h : RingHandle) (kernel : List Insn → RingFrame → Bool)
    (scratch : Fin bpfMemwords → UInt32) (f : List Insn) (fr : RingFrame) : Prop :=
  BpfAccepts scratch f fr ∨ ∃ k, fixProgram h.cooked true f = some k ∧ kernel k fr

/-- The frames that `use_bpf` still counts: while `bpf_filter` runs, the first one has
been counted. -/
def pending (s : RingCapture) (q : List RingFrame) : List RingFrame :=
  match s.mode with
  | .filtering .. => q.tail
  | .skipping .. => q.tail
  | _ => q

/-- The walk is at the frame `n + 1` before `offset`; the frames from before the
filter are in front of those that it has found free. -/
structure Walking (h : RingHandle) (kernel : List Insn → RingFrame → Bool) (s : RingCapture)
    (q : List RingFrame) (offset n : ℕ) : Prop where
  lt : offset < h.cc
  position : (offset + (n + 1)) % h.cc = s.offset
  useBpf : s.useBpf = 1
  known : ∃ u ≤ q.length, (0 < n → u ≤ h.cc - 1 - n) ∧ Known h kernel s q u

structure Filtered (h : RingHandle) (kernel : List Insn → RingFrame → Bool)
    (scratch : Fin bpfMemwords → UInt32) (s : RingCapture) (q : List RingFrame) : Prop where
  taken : ∀ t ∈ s.taken, ∀ d f, t.passed = some d → t.fcode = some f →
    Accepted h kernel scratch f t.frame
  attached : 0 < s.useBpf → ∃ k, s.kernelProgram h = some k ∧ s.attached = some k
  attaching : s.mode = .attaching → s.useBpf = 0
  known : (∀ offset n, s.mode ≠ .walking offset n) → 0 < s.useBpf →
    Known h kernel s (s.pending q) (s.useBpf - 1)
  filtering : ∀ pkts maxPackets st, s.mode = .filtering pkts maxPackets st → ∀ fr ∈ q.head?,
    ∃ f, s.fcode = some f ∧
      (filterStep (userland fr.data fr.tpLen) f).Leads (.start scratch) st
  walking : ∀ offset n, s.mode = .walking offset n → Walking h kernel s q offset n
  room : ∀ fr ∈ q, HasRoom h fr

/-- The same is known when more frames are to be tested here. -/
theorem Known.mono {frames : List RingFrame} {u u' : ℕ} (hk : Known h kernel s frames u)
    (hle : u ≤ u') :
    Known h kernel s frames u' := fun k hprog j fr hj hu => hk k hprog j fr hj (hle.trans hu)

/-- What is known of the frames behind the first, of which one less is to be tested. -/
theorem Known.tail {frames : List RingFrame} {u u' : ℕ} (hk : Known h kernel s frames u)
    (hle : u ≤ u' + 1) : Known h kernel s frames.tail u' := by
  intro k hprog j fr hj hu
  rw [List.getElem?_tail] at hj
  exact hk k hprog (j + 1) fr hj (by omega)

/-- A frame that arrives behind the others has passed the attached filter. -/
theorem Known.append {frames : List RingFrame} {u : ℕ} {fr : RingFrame}
    (hk : Known h kernel s frames u)
    (hattached : ∃ k, s.kernelProgram h = some k ∧ s.attached = some k)
    (haccept : s.attached.all (kernel · fr)) : Known h kernel s (frames ++ [fr]) u := by
  obtain ⟨k, hprog, hk'⟩ := hattached
  intro k' hprog' j fr' hj hu
  by_cases hlt : j < frames.length
  · rw [List.getElem?_append_left hlt] at hj
    exact hk k' hprog' j fr' hj hu
  · rw [List.getElem?_append_right (Nat.not_lt.mp hlt), List.getElem?_singleton] at hj
    split at hj
    · cases hj
      rw [hprog] at hprog'
      cases hprog'
      rw [hk'] at haccept
      exact haccept
    · cases hj

/-- What is known depends on the filter only. -/
theorem Known.congr {frames : List RingFrame} {u : ℕ} (hk : Known h kernel s frames u)
    (hfcode : s'.fcode = s.fcode) : Known h kernel s' frames u := by
  intro k hprog
  refine hk k ?_
  rw [← hprog, kernelProgram, kernelProgram, hfcode]

/-- A frame that fits is not an error. -/
theorem fate_ne_fail {fr : RingFrame} (hroom : HasRoom h fr) : h.fate fr ≠ .fail := by
  have hdeliver : ∀ dir, h.deliver fr dir ≠ none := by
    intro dir hnone
    have hcook : h.cook fr = none := Option.map_eq_none_iff.mp hnone
    unfold RingHandle.cook at hcook
    split at hcook
    · rename_i hc
      rw [if_neg (Nat.not_lt.mpr (hroom.2 hc))] at hcook
      cases hcook
    · cases hcook
  unfold RingHandle.fate
  split
  · exact Fate.noConfusion
  · split
    · rename_i hnone
      exact absurd hnone (hdeliver _)
    · exact Fate.noConfusion

/-- Only behind a filter that the kernel runs `bpf_filter` is not asked. -/
theorem runBpf_eq_false {useBpf : ℕ} (h : (runBpf useBpf).1 = false) : useBpf = 1 := by
  unfold runBpf at h
  split at h
  · cases h
  · split at h
    · cases h
    · omega

/-- The counter goes down by one at most, and 0 stays 0. -/
theorem runBpf_le (useBpf : ℕ) :
    (0 < (runBpf useBpf).2 → 0 < useBpf) ∧ useBpf - 1 ≤ (runBpf useBpf).2 - 1 + 1 := by
  unfold runBpf
  split
  · omega
  · split <;> omega

/-- Outside the handling of a frame all of the ring is pending. -/
theorem pending_of_calm (hmode : Calm s.mode) (q : List RingFrame) : s.pending q = q := by
  unfold pending
  split
  · rename_i h
    rw [h] at hmode
    cases hmode
  · rename_i h
    rw [h] at hmode
    cases hmode
  · rfl

/-- Steps that only wait keep what is known of the frames. -/
theorem Filtered.waits (hf : Filtered h kernel scratch s q) (hw : Waits s s') :
    Filtered h kernel scratch s' q := by
  have hnot : ∀ m, s'.mode = m → Calm m ∨ ∃ pkts maxPackets, m = .holding pkts maxPackets := by
    rintro m rfl
    exact hw.mode.imp_right fun ⟨pkts, maxPackets, hm, _⟩ => ⟨pkts, maxPackets, hm⟩
  have hpending : s'.pending q = s.pending q := by
    rw [pending_of_calm hw.calm]
    rcases hw.mode with hcalm | ⟨pkts, maxPackets, hmode, -⟩
    · exact pending_of_calm hcalm q
    · simp only [pending, hmode]
  -- neither before nor after the step is the program at a frame
  have hwalk : ∀ offset n, s.mode ≠ .walking offset n := by
    intro offset n hm
    have hcalm := hw.calm
    rw [hm] at hcalm
    exact hcalm
  refine ⟨?_, ?_, ?_, ?_, ?_, ?_, hf.room⟩
  · rw [hw.taken]
    exact hf.taken
  · rw [hw.useBpf, hw.attached, kernelProgram, hw.fcode]
    exact hf.attached
  · intro hm
    rcases hnot _ hm with hcalm | ⟨_, _, hm'⟩
    · exact hcalm.elim
    · cases hm'
  · intro _ hpos
    rw [hpending, hw.useBpf]
    rw [hw.useBpf] at hpos
    exact (hf.known hwalk hpos).congr hw.fcode
  · intro pkts maxPackets st hm
    rcases hnot _ hm with hcalm | ⟨_, _, hm'⟩
    · exact hcalm.elim
    · cases hm'
  · intro offset n hm
    rcases hnot _ hm with hcalm | ⟨_, _, hm'⟩
    · exact hcalm.elim
    · cases hm'

/-- What an arrival leaves as it is. -/
structure Keeps (s s' : RingCapture) : Prop where
  attached : s'.attached = s.attached
  offset : s'.offset = s.offset
  useBpf : s'.useBpf = s.useBpf
  fcode : s'.fcode = s.fcode
  mode : s'.mode = s.mode
  taken : s'.taken = s.taken

/-- A frame that arrives changes nothing of the handle. -/
theorem arrive_keeps (s : RingCapture) (fr : RingFrame) : Keeps s (s.arrive h kernel fr) := by
  unfold RingCapture.arrive
  split <;> exact ⟨rfl, rfl, rfl, rfl, rfl, rfl⟩

/-- The kernel's filter has accepted the frame that arrives, where one is set. -/
theorem Filtered.arrive (hs : s.InOrder h q) (hf : Filtered h kernel scratch s q) {fr : RingFrame}
    (hroom : HasRoom h fr) :
    ∃ q', (s.arrive h kernel fr).InOrder h q' ∧
      Filtered h kernel scratch (s.arrive h kernel fr) q' := by
  obtain ⟨q', hs', ⟨rfl, heq⟩ | ⟨rfl, haccept⟩⟩ := hs.arrive kernel fr
  · -- the frame is dropped
    rw [heq]
    exact ⟨q', hs, hf⟩
  · -- the frame is put behind `q`: what is known of `q` is known of `q ++ [fr]`
    refine ⟨_, hs', ?_⟩
    have hkeep : Keeps s (s.arrive h kernel fr) := arrive_keeps s fr
    have hprog : (s.arrive h kernel fr).kernelProgram h = s.kernelProgram h := by
      rw [kernelProgram, kernelProgram, hkeep.fcode]
    have hpending : (s.arrive h kernel fr).pending (q ++ [fr]) = s.pending q ++ [fr] := by
      unfold pending
      rw [hkeep.mode]
      split
      · rename_i hmode
        exact List.tail_append_of_ne_nil (hs.atFrame (by rw [hmode]; trivial))
      · rename_i hmode
        exact List.tail_append_of_ne_nil (hs.atFrame (by rw [hmode]; trivial))
      · rfl
    refine ⟨by rw [hkeep.taken]; exact hf.taken, ?_,
      by rw [hkeep.mode, hkeep.useBpf]; exact hf.attaching,
      ?_, ?_, ?_, ?_⟩
    · -- while a filter is attached the kernel has accepted the frame
      rw [hkeep.useBpf, hprog, hkeep.attached]
      exact hf.attached
    · rw [hkeep.mode, hkeep.useBpf, hpending]
      intro hwalk hpos
      exact ((hf.known hwalk hpos).append (hf.attached hpos) haccept).congr hkeep.fcode
    · -- a filter that is running runs on the first frame still
      rw [hkeep.mode, hkeep.fcode]
      intro pkts maxPackets st hm fr' hfr'
      refine hf.filtering pkts maxPackets st hm fr' ?_
      rwa [List.head?_append_of_ne_nil _ (hs.atFrame (by rw [hm]; trivial))] at hfr'
    · -- the walk has not come to the new frame, which the attached filter has seen
      rw [hkeep.mode]
      intro offset n hm
      obtain ⟨hlt, hback, hone, u, hu, hn, hknown⟩ := hf.walking offset n hm
      refine ⟨hlt, by rw [hkeep.offset]; exact hback, by rw [hkeep.useBpf]; exact hone,
        u, ?_, hn, ?_⟩
      · rw [List.length_append]
        omega
      · exact (hknown.append (hf.attached (by omega)) haccept).congr hkeep.fcode
    · intro fr' hfr'
      rcases List.mem_append.mp hfr' with hmem | hmem
      · exact hf.room fr' hmem
      · rw [List.mem_singleton.mp hmem]
        exact hroom

/-- The kernel's filter is the user's, as `fix_program` has changed it. -/
theorem fixProgram_of_kernelProgram {k f : List Insn} (hk : s.kernelProgram h = some k)
    (hf : s.fcode = some f) : fixProgram h.cooked true f = some k := by
  rw [kernelProgram, hf, Option.bind_some] at hk
  split at hk
  · cases hk
  · exact hk

/-- A frame is taken that has been accepted, if it is passed on. -/
theorem filtered_settle {fr : RingFrame} {pkts : ℕ} {maxPackets : ℤ} {fate : Fate}
    (hframe : s.ring.frame s.offset = fr)
    (htaken : ∀ t ∈ s.taken, ∀ d f, t.passed = some d → t.fcode = some f →
      Accepted h kernel scratch f t.frame)
    (hattached : 0 < s.useBpf → ∃ k, s.kernelProgram h = some k ∧ s.attached = some k)
    (hknown : 0 < s.useBpf → Known h kernel s q (s.useBpf - 1))
    (hroom : ∀ fr' ∈ fr :: q, HasRoom h fr') (hfate : fate ≠ .fail)
    (hpass : ∀ d f, fate = .pass d → s.fcode = some f → Accepted h kernel scratch f fr) :
    Filtered h kernel scratch (s.settle pkts maxPackets fate) (fr :: q) := by
  rcases settle_cases s pkts maxPackets fate with ⟨hfail, -⟩ | ⟨passed, pkts', hpassed, heq⟩
  · exact absurd hfail hfate
  rw [heq]
  refine ⟨?_, hattached, fun hm => (nomatch hm), fun _ hp => (hknown hp).congr rfl,
    fun _ _ _ hm => (nomatch hm), fun _ _ hm => (nomatch hm), hroom⟩
  intro t ht d f hd hfcode
  rcases List.mem_append.mp ht with ht | ht
  · exact htaken t ht d f hd hfcode
  · rw [List.mem_singleton.mp ht] at hd hfcode ⊢
    rw [hframe]
    exact hpass d f (hpassed d hd) hfcode

/-- A packet that is passed on without a test here was accepted by the kernel. -/
theorem Filtered.take (hs : s.InOrder h q) (hf : Filtered h kernel scratch s q) {pkts : ℕ}
    {maxPackets : ℤ} (hmode : s.mode = .holding pkts maxPackets) :
    Filtered h kernel scratch (s.take h scratch pkts maxPackets) q := by
  obtain ⟨fr, q', rfl⟩ := List.exists_cons_of_ne_nil (hs.atFrame (by rw [hmode]; trivial))
  have hframe : s.ring.frame s.offset = fr := hs.holds.frame_base
  have hwalk : ∀ offset n, s.mode ≠ .walking offset n := by
    intro offset n hm
    rw [hmode] at hm
    cases hm
  have hpending : s.pending (fr :: q') = fr :: q' := by simp only [pending, hmode]
  have hroom := hf.room fr List.mem_cons_self
  obtain ⟨hpos, hle⟩ := runBpf_le s.useBpf
  have hattached : 0 < (runBpf s.useBpf).2 →
      ∃ k, s.kernelProgram h = some k ∧ s.attached = some k := fun hp => hf.attached (hpos hp)
  -- the frame is counted off
  have hknown : 0 < (runBpf s.useBpf).2 → Known h kernel s q' ((runBpf s.useBpf).2 - 1) := by
    intro hp
    have hknown := hf.known hwalk (hpos hp)
    rw [hpending] at hknown
    exact hknown.tail hle
  rcases take_cases h scratch s pkts maxPackets with
    ⟨hbig, -⟩ | ⟨f, hfcode, heq⟩ | ⟨hrun, heq⟩
  · rw [hframe] at hbig
    exact absurd hbig hroom.1
  · rw [heq]
    refine ⟨hf.taken, hattached, fun hm => (nomatch hm), fun _ hp => (hknown hp).congr rfl, ?_,
      fun _ _ hm => (nomatch hm), hf.room⟩
    intro pkts' maxPackets' st hm fr' _
    cases hm
    exact ⟨f, hfcode, Machine.Leads.refl _⟩
  · rw [heq, hframe]
    refine filtered_settle hframe hf.taken hattached (fun hp => (hknown hp).congr rfl) hf.room
      (fate_ne_fail hroom) fun d f _ hfcode => ?_
    -- the kernel has looked at this frame
    have hone : s.useBpf = 1 := runBpf_eq_false <| hrun.resolve_right fun hnone => by
      cases hnone.symm.trans hfcode
    obtain ⟨k, hk, -⟩ := hf.attached (by omega)
    have hfirst := hf.known hwalk (by omega)
    rw [hpending] at hfirst
    exact .inr ⟨k, fixProgram_of_kernelProgram hk hfcode, hfirst k hk 0 fr rfl (by omega)⟩

/-- One that is tested here is passed on when the filter accepts it. -/
theorem Filtered.filter (hs : s.InOrder h q) (hf : Filtered h kernel scratch s q) {pkts : ℕ}
    {maxPackets : ℤ} {st : FilterState} (hmode : s.mode = .filtering pkts maxPackets st)
    (hstep : s.filter h pkts maxPackets st = some s') : Filtered h kernel scratch s' q := by
  obtain ⟨fr, q', rfl⟩ := List.exists_cons_of_ne_nil (hs.atFrame (by rw [hmode]; trivial))
  have hframe : s.ring.frame s.offset = fr := hs.holds.frame_base
  have hwalk : ∀ offset n, s.mode ≠ .walking offset n := by
    intro offset n hm
    rw [hmode] at hm
    cases hm
  have hknown := hf.known hwalk
  rw [show s.pending (fr :: q') = q' by simp only [pending, hmode, List.tail_cons]] at hknown
  obtain ⟨f, hfcode, hleads⟩ := hf.filtering pkts maxPackets st hmode fr rfl
  obtain ⟨f', fr', hfcode', rfl, hcases⟩ := filter_cases hstep
  cases hfcode.symm.trans hfcode'
  rw [hframe] at hcases
  -- the filter takes another step on the frame
  obtain ⟨st', hnext, rfl⟩ | ⟨v, hret, rfl⟩ := hcases
  · refine ⟨hf.taken, hf.attached, fun hm => (nomatch hm), fun _ hp => (hknown hp).congr rfl, ?_,
      fun _ _ hm => (nomatch hm), hf.room⟩
    intro pkts' maxPackets' st'' hm fr'' hfr
    cases hm
    cases hfr
    exact ⟨f, hfcode, hleads.trans (Machine.Leads.single hnext)⟩
  · -- the filter has returned, and the frame is passed on unless it returned 0
    refine filtered_settle hframe hf.taken hf.attached hknown hf.room ?_ fun d f' hd hf' => ?_
    · split
      · exact Fate.noConfusion
      · exact fate_ne_fail (hf.room fr List.mem_cons_self)
    · cases hfcode.symm.trans hf'
      refine .inl ⟨v, fun hv => ?_, hleads.yields (Machine.Yields.halt hret)⟩
      rw [if_pos hv] at hd
      cases hd

/-- The next frame takes the place of the one that was given back. -/
theorem Filtered.skip (hf : Filtered h kernel scratch s q) {pkts : ℕ} {maxPackets : ℤ}
    (hmode : s.mode = .skipping pkts maxPackets) :
    Filtered h kernel scratch (s.skip h pkts maxPackets) q.tail := by
  have hwalk : ∀ offset n, s.mode ≠ .walking offset n := by
    intro offset n hm
    rw [hmode] at hm
    cases hm
  have hknown := hf.known hwalk
  simp only [pending, hmode] at hknown
  unfold RingCapture.skip
  simp only
  split
  all_goals
    exact ⟨hf.taken, hf.attached, fun hm => (nomatch hm), fun _ hp => hknown hp,
      fun _ _ _ hm => (nomatch hm), fun _ _ hm => (nomatch hm),
      fun fr hfr => hf.room fr (List.mem_of_mem_tail hfr)⟩

/-- The frame before is a frame of the ring. -/
theorem back_lt {offset : ℕ} (hlt : offset < h.cc) : back h offset < h.cc := by
  unfold back
  split <;> omega

/-- The frame behind it is this one. -/
theorem back_succ {offset : ℕ} (hlt : offset < h.cc) : (back h offset + 1) % h.cc = offset := by
  unfold back
  split
  · rename_i hzero
    rw [Nat.sub_add_cancel (by omega), Nat.mod_self, hzero]
  · rw [Nat.sub_add_cancel (by omega), Nat.mod_eq_of_lt hlt]

/-- One more free frame: the frames from before the filter are in front of it. -/
theorem Walking.next (hs : s.InOrder h q) {offset n : ℕ} (hw : Walking h kernel s q offset n)
    (hn : n < h.cc) (hfree : s.ring.full (back h offset) = false) (mode : RingMode) :
    Walking h kernel { s with mode := mode } q (back h offset) (n + 1) := by
  obtain ⟨hlt, hback, hone, u, hu, hfound, hknown⟩ := hw
  have hsteps : (back h offset + (n + 1 + 1)) % h.cc = s.offset := by
    rw [← SharedRing.position_succ, back_succ hlt]
    exact hback
  refine ⟨back_lt hlt, hsteps, hone, u, hu, fun _ => ?_, hknown.congr rfl⟩
  by_cases hround : n + 2 ≤ h.cc
  · have hslot := SharedRing.position_back (back_lt hlt) hround hsteps
    rw [← hslot] at hfree
    have hlen := hs.holds.length_le_of_not_full (by omega) hfree
    omega
  · -- once around: the last frame is the one before `offset`
    rcases Nat.eq_zero_or_pos n with hzero | hpos
    · have hbase := hs.holds.base
      have hslot : back h offset = s.offset := by
        have hcc := back_lt hlt
        omega
      rw [hslot, hs.holds.full_base, decide_eq_false_iff_not] at hfree
      omega
    · have hfound := hfound hpos
      omega

/-- The walk back ends at the first frame that the new filter has not seen. -/
theorem Filtered.walk (hs : s.InOrder h q) (hf : Filtered h kernel scratch s q) {offset n : ℕ}
    (hmode : s.mode = .walking offset n) : Filtered h kernel scratch (s.walk h offset n) q := by
  have hw := hf.walking offset n hmode
  unfold RingCapture.walk
  split
  · rename_i hfree
    refine ⟨hf.taken, hf.attached, fun hm => (nomatch hm), fun hm => absurd rfl (hm _ _),
      fun _ _ _ hm => (nomatch hm), ?_, hf.room⟩
    intro offset' n' hm
    cases hm
    exact hw.next hs hfree.1 hfree.2 _
  · obtain ⟨-, -, hone, u, hu, hfound, hknown⟩ := hw
    refine ⟨hf.taken, fun _ => hf.attached (by omega), fun hm => (nomatch hm), fun _ _ => ?_,
      fun _ _ _ hm => (nomatch hm), fun _ _ hm => (nomatch hm), hf.room⟩
    show Known h kernel _ q (1 + (h.cc - n) - 1)
    refine (hknown.mono ?_).congr rfl
    have hlen := hs.holds.length
    rcases Nat.eq_zero_or_pos n with hzero | hpos
    · omega
    · have hfound := hfound hpos
      omega

/-- While the filter is exchanged, frames that waited are to be tested here. -/
theorem Filtered.exchanges (hs : s.InOrder h q) (hf : Filtered h kernel scratch s q)
    (he : Exchanges h s s') : Filtered h kernel scratch s' q := by
  cases he with
  | install hmode filter heq =>
      subst heq
      -- from here on every frame is tested here
      exact ⟨hf.taken, fun hp => absurd hp (Nat.lt_irrefl 0), fun _ => rfl,
        fun _ hp => absurd hp (Nat.lt_irrefl 0), fun _ _ _ hm => (nomatch hm),
        fun _ _ hm => (nomatch hm), hf.room⟩
  | total hmode heq =>
      subst heq
      -- the total filter is attached while every frame is tested here
      have hzero : ¬ 0 < s.useBpf := by
        rw [hf.attaching hmode]
        exact Nat.lt_irrefl 0
      refine ⟨hf.taken, fun hp => absurd hp hzero, hf.attaching, fun _ hp => absurd hp hzero,
        hf.filtering, ?_, hf.room⟩
      intro offset n hm
      rw [show s.mode = _ from hm] at hmode
      cases hmode
  | attach hmode k hk heq =>
      subst heq
      -- the frames in the ring are the ones the kernel has not tested: all of `q`, as the walk
      -- starts
      refine ⟨hf.taken, fun _ => ⟨k, hk, rfl⟩, fun hm => (nomatch hm),
        fun hm => absurd rfl (hm _ _), fun _ _ _ hm => (nomatch hm), ?_, hf.room⟩
      intro offset n hm
      cases hm
      refine ⟨back_lt hs.holds.base, back_succ hs.holds.base, rfl, q.length, le_rfl,
        fun hlt => absurd hlt (Nat.lt_irrefl 0), ?_⟩
      intro k' _ j fr hj hle
      rw [List.getElem?_eq_none hle] at hj
      cases hj
  | giveUp hmode reset ret heq =>
      subst heq
      -- the kernel's filter is given up; frames are still tested here
      have hzero := hf.attaching hmode
      have hsame : (s.resetKernelFilter reset).useBpf = s.useBpf ∧
          (s.resetKernelFilter reset).taken = s.taken := by
        cases reset <;> exact ⟨rfl, rfl⟩
      have hnot : ¬ 0 < (s.resetKernelFilter reset).useBpf := by
        rw [hsame.1, hzero]
        exact Nat.lt_irrefl 0
      refine ⟨?_, fun hp => absurd hp hnot, fun hm => (nomatch hm), fun _ hp => absurd hp hnot,
        fun _ _ _ hm => (nomatch hm), fun _ _ hm => (nomatch hm), hf.room⟩
      show ∀ t ∈ (s.resetKernelFilter reset).taken, _
      rw [hsame.2]
      exact hf.taken

/-- Every step of a roomy run keeps what is known. -/
theorem Filtered.step {i : RingAct} (hs : s.InOrder h q) (hf : Filtered h kernel scratch s q)
    (hroom : Roomy h i s) (hstep : RingCapture.step h kernel scratch i s = some s') :
    ∃ q', s'.InOrder h q' ∧ Filtered h kernel scratch s' q' := by
  rcases step_cases hstep with ⟨fr, rfl, rfl⟩ | rfl | hw | ⟨pkts, maxPackets, hmode, rfl⟩ |
    ⟨pkts, maxPackets, st, hmode, hfilter⟩ | ⟨pkts, maxPackets, hmode, rfl⟩ |
    ⟨offset, n, hmode, rfl⟩ | he
  · exact hf.arrive hs hroom
  · refine ⟨q, hs.of_same rfl rfl rfl rfl rfl rfl hs.atFrame,
      hf.taken, hf.attached, hf.attaching, hf.known, hf.filtering, fun offset n hm => ?_, hf.room⟩
    obtain ⟨hlt, hback, hone, u, hu, hfound, hknown⟩ := hf.walking offset n hm
    exact ⟨hlt, hback, hone, u, hu, hfound, hknown.congr rfl⟩
  · exact ⟨q, hs.waits hw, hf.waits hw⟩
  · exact ⟨q, hs.take hmode, hf.take hs hmode⟩
  · exact ⟨q, hs.filter hmode hfilter, hf.filter hs hmode hfilter⟩
  · exact ⟨q.tail, hs.skip hmode, hf.skip hmode⟩
  · exact ⟨q, hs.walk hmode, hf.walk hs hmode⟩
  · exact ⟨q, hs.exchanges he, hf.exchanges hs he⟩

/-- At the start there is no filter and no frame. -/
theorem Filtered.init (hinit : Init h s) : Filtered h kernel scratch s [] := by
  obtain ⟨-, -, -, -, huse, -, hmode, -, htaken⟩ := hinit
  have hzero : ¬ 0 < s.useBpf := by
    rw [huse]
    exact Nat.lt_irrefl 0
  refine ⟨?_, fun hp => absurd hp hzero, fun _ => huse, fun _ hp => absurd hp hzero, ?_, ?_,
    fun fr hfr => (nomatch hfr)⟩
  · rw [htaken]
    exact fun t ht => (nomatch ht)
  · rw [hmode]
    exact fun _ _ _ hm => (nomatch hm)
  · rw [hmode]
    exact fun _ _ hm => (nomatch hm)

/-- In every order of arrivals, reads and changes of the filter: a packet that is
passed on while a filter is installed has been accepted by that filter. -/
theorem taken_filtered (hreach : (system h kernel scratch).ReachableBy (Roomy h) s) :
    ∀ t ∈ s.taken, ∀ d f, t.passed = some d → t.fcode = some f →
      Accepted h kernel scratch f t.frame := by
  obtain ⟨q, -, hf⟩ := hreach.invariant
    (P := fun s => ∃ q, s.InOrder h q ∧ Filtered h kernel scratch s q)
    (fun s hinit => ⟨[], InOrder.init hinit, Filtered.init hinit⟩)
    fun i s s' ⟨q, hs, hf⟩ hok hstep => hf.step hs hok hstep
  exact hf.taken

theorem taken_filtered_etherActs :
    ∃ s, (system etherHandle etherKernel noScratch).runBy (Roomy etherHandle) etherActs etherStart =
        some s ∧
      s.taken.map (fun t => t.passed.isSome) = [false, true] ∧
      ∀ t ∈ s.taken, ∀ d f, t.passed = some d → t.fcode = some f →
        Accepted etherHandle etherKernel noScratch f t.frame := by
  have hrun : ∃ s, (system etherHandle etherKernel noScratch).runBy (Roomy etherHandle) etherActs
      etherStart = some s ∧ s.taken.map (fun t => t.passed.isSome) = [false, true] := ⟨_, rfl, rfl⟩
  obtain ⟨s, hs, hpassed⟩ := hrun
  exact ⟨s, hs, hpassed, taken_filtered ⟨etherStart, etherStart_init, System.steps_of_runBy hs⟩⟩

end Filtering

end RingCapture

end MobiPerf.Capture
