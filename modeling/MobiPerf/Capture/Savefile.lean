import MobiPerf.Capture.Bpf
import MobiPerf.Lib.Records

/-!
# Capture.Savefile — capture files

`pcap_dump_open` and `pcap_dump` write packets to a file, in the byte order of the
machine; `pcap_open_offline` and `pcap_offline_read` read them back, on a machine of
either byte order and with a filter. A file may end anywhere, since the writer can be
killed between two writes.

`openOffline_dump` is about the file header, and `packetFormat` has the laws of the
packets.
-/

namespace MobiPerf.Capture

open Lib SocketProc

/-! ## Byte orders -/

inductive Endian where
  | little
  | big
deriving DecidableEq, Repr

/-- The byte of the value 256ⁱ. -/
def byteOf (v i : ℕ) : BYTE := UInt8.ofNat (v / 256 ^ i)

namespace Endian

def bytes16 (v : UInt16) : Endian → Bytes
  | little => [byteOf v.toNat 0, byteOf v.toNat 1]
  | big => [byteOf v.toNat 1, byteOf v.toNat 0]

def bytes32 (v : UInt32) : Endian → Bytes
  | little => [byteOf v.toNat 0, byteOf v.toNat 1, byteOf v.toNat 2, byteOf v.toNat 3]
  | big => [byteOf v.toNat 3, byteOf v.toNat 2, byteOf v.toNat 1, byteOf v.toNat 0]

/-- A word in memory. -/
def read16 (e : Endian) (bs : Bytes) : UInt16 :=
  match e, bs with
  | little, a :: b :: _ => UInt16.ofNat (a.toNat + 256 * b.toNat)
  | big, b :: a :: _ => UInt16.ofNat (a.toNat + 256 * b.toNat)
  | _, _ => 0

def read32 (e : Endian) (bs : Bytes) : UInt32 :=
  match e, bs with
  | little, a :: b :: c :: d :: _ =>
    UInt32.ofNat (a.toNat + 256 * b.toNat + 65536 * c.toNat + 16777216 * d.toNat)
  | big, d :: c :: b :: a :: _ =>
    UInt32.ofNat (a.toNat + 256 * b.toNat + 65536 * c.toNat + 16777216 * d.toNat)
  | _, _ => 0

end Endian

/-- `SWAPSHORT` and `SWAPLONG`: the bytes in the other order. -/
def swapShort (v : UInt16) : UInt16 := Endian.big.read16 (Endian.little.bytes16 v)

def swapLong (v : UInt32) : UInt32 := Endian.big.read32 (Endian.little.bytes32 v)

/-! ## The format -/

def tcpdumpMagic : UInt32 := 0xa1b2c3d4
def kuznetzovTcpdumpMagic : UInt32 := 0xa1b2cd34

def pcapVersionMajor : UInt16 := 2
def pcapVersionMinor : UInt16 := 4

def bpfMaxbufsize : ℕ := 0x8000

/-- `LT_LINKTYPE` and `LT_LINKTYPE_EXT`. -/
def ltLinktype (x : UInt32) : UInt32 := x &&& 0x03FFFFFF
def ltLinktypeExt (x : UInt32) : UInt32 := x &&& 0xFC000000

/-- The bits of the extension are kept. -/
theorem ltLinktypeExt_idem (x : UInt32) : ltLinktypeExt (ltLinktypeExt x) = ltLinktypeExt x := by
  rw [ltLinktypeExt, ltLinktypeExt, UInt32.and_assoc, UInt32.and_self]

def dltEn10mb : UInt32 := 1
def dltUsbLinux : UInt32 := 189
def dltUsbLinuxMmapped : UInt32 := 220

/-- Codes that are the same in both columns. -/
def sameCodes (codes : List ℕ) : List (UInt32 × UInt32) :=
  codes.map fun c => (UInt32.ofNat c, UInt32.ofNat c)

/-- `map`: `DLT_` codes and `LINKTYPE_` codes. -/
def linktypeMap : List (UInt32 × UInt32) :=
  sameCodes (List.range 11) ++ sameCodes [99] ++ [(11, 100), (12, 101), (15, 102), (16, 103)] ++
    sameCodes [104] ++ [(19, 106)] ++ sameCodes [50, 51, 105, 107, 108, 109, 113, 114, 115] ++
    sameCodes (List.range' 117 30) ++ sameCodes (List.range' 163 45) ++
      sameCodes (List.range' 209 21)

/-- `none` is the -1 for a code that savefiles do not support. -/
def dltToLinktype (dlt : UInt32) : Option UInt32 := linktypeMap.lookup dlt

def linktypeToDlt (linktype : UInt32) : UInt32 :=
  ((linktypeMap.find? fun p => p.2 = linktype).map Prod.fst).getD linktype

/-! ## Writing -/

/-- The fields of the `pcap_t` that the file header takes. -/
structure PcapSource where
  activated : Bool
  linktype : UInt32
  linktypeExt : UInt32
  /-- only the upper bits are ever set -/
  upper : ltLinktypeExt linktypeExt = linktypeExt
  tzoff : UInt32
  snapshot : UInt32

/-- `struct pcap_pkthdr` and the captured bytes. -/
structure PcapPkt where
  tvSec : UInt32
  tvUsec : UInt32
  caplen : UInt32
  len : UInt32
  data : Bytes
  length : data.length = caplen.toNat

/-- `sf_write_header`. -/
def sfWriteHeader (e : Endian) (linktype thiszone snaplen : UInt32) : Bytes :=
  e.bytes32 tcpdumpMagic ++ e.bytes16 pcapVersionMajor ++ e.bytes16 pcapVersionMinor ++
    e.bytes32 thiszone ++ e.bytes32 0 ++ e.bytes32 snaplen ++ e.bytes32 linktype

/-- `pcap_dump_open`: the first bytes of the file. -/
def pcapDumpOpen (e : Endian) (p : PcapSource) : Option Bytes :=
  if p.activated then
    (dltToLinktype p.linktype).map fun linktype =>
      sfWriteHeader e (linktype ||| p.linktypeExt) p.tzoff p.snapshot
  else none

/-- `struct pcap_sf_pkthdr`. -/
def sfPkthdr (e : Endian) (p : PcapPkt) : Bytes :=
  e.bytes32 p.tvSec ++ e.bytes32 p.tvUsec ++ e.bytes32 p.caplen ++ e.bytes32 p.len

def pcapDump (e : Endian) (p : PcapPkt) : Bytes := sfPkthdr e p ++ p.data

/-! ## Reading -/

inductive LengthsSwapped where
  | notSwapped
  | swapped
  | maybeSwapped
deriving DecidableEq, Repr

/-- What is known of an open file. -/
structure Savefile where
  swapped : Bool
  hdrsize : ℕ
  hdrsize_pos : 0 < hdrsize
  lengthsSwapped : LengthsSwapped
  versionMajor : UInt16
  versionMinor : UInt16
  tzoff : UInt32
  snapshot : UInt32
  linktype : UInt32
  linktypeExt : UInt32
  upper : ltLinktypeExt linktypeExt = linktypeExt
  bufsize : ℕ
  bufsize_lt : bufsize < 2 ^ 32

/-- `p->bufsize = p->snapshot`, unless that is not positive. -/
def bufsizeOf (snapshot : UInt32) : ℕ :=
  if snapshot = 0 ∨ 2 ^ 31 ≤ snapshot.toNat then bpfMaxbufsize else snapshot.toNat

/-- The buffer is no larger than an address. -/
theorem bufsizeOf_lt (snapshot : UInt32) : bufsizeOf snapshot < 2 ^ 32 := by
  unfold bufsizeOf
  split
  · decide
  · exact snapshot.toNat_lt

/-- `struct pcap_file_header` behind the magic number. -/
structure PcapFileHeader where
  versionMajor : UInt16
  versionMinor : UInt16
  thiszone : UInt32
  sigfigs : UInt32
  snaplen : UInt32
  linktype : UInt32

def readFileHeader (e : Endian) (swapped : Bool) (hdr : Bytes) : PcapFileHeader :=
  let short v := if swapped then swapShort v else v
  let long v := if swapped then swapLong v else v
  { versionMajor := short (e.read16 hdr)
    versionMinor := short (e.read16 (hdr.drop 2))
    thiszone := long (e.read32 (hdr.drop 4))
    sigfigs := long (e.read32 (hdr.drop 8))
    snaplen := long (e.read32 (hdr.drop 12))
    linktype := long (e.read32 (hdr.drop 16)) }

namespace PcapFileHeader

/-- The order of `caplen` and `len` was changed with version 2.3. -/
def lengthsSwapped (hdr : PcapFileHeader) : LengthsSwapped :=
  if hdr.versionMajor = 2 then
    if hdr.versionMinor < 3 then .swapped
    else if hdr.versionMinor = 3 then .maybeSwapped
    else .notSwapped
  else if hdr.versionMajor = 543 then .swapped
  else .notSwapped

/-- The open file; `patched` is the format of a modified libpcap. -/
def savefile (hdr : PcapFileHeader) (swapped patched : Bool) : Savefile :=
  let dlt := linktypeToDlt (ltLinktype hdr.linktype)
  let snapshot := if patched && dlt = dltEn10mb then hdr.snaplen + 14 else hdr.snaplen
  { swapped := swapped
    hdrsize := if patched then 24 else 16
    hdrsize_pos := by split <;> decide
    lengthsSwapped := hdr.lengthsSwapped
    versionMajor := hdr.versionMajor
    versionMinor := hdr.versionMinor
    tzoff := hdr.thiszone
    snapshot := snapshot
    linktype := dlt
    linktypeExt := ltLinktypeExt hdr.linktype
    upper := ltLinktypeExt_idem hdr.linktype
    bufsize := bufsizeOf snapshot
    bufsize_lt := bufsizeOf_lt snapshot }

end PcapFileHeader

def truncatedHeader (toRead amtRead : ℕ) : String :=
  s!"truncated dump file; tried to read {toRead} file header bytes, only got {amtRead}"

/-- `pcap_check_header` behind the magic number; `none` is the 0 for another format. -/
def pcapCheckHeader (e : Endian) (magic : UInt32) (bs : Bytes) :
    Except String (Option (Savefile × Bytes)) :=
  let swapped : Bool := ¬ (magic = tcpdumpMagic ∨ magic = kuznetzovTcpdumpMagic)
  let magic := if swapped then swapLong magic else magic
  if magic = tcpdumpMagic ∨ magic = kuznetzovTcpdumpMagic then
    let got := bs.take 20
    if got.length ≠ 20 then .error (truncatedHeader 24 got.length)
    else
      let hdr := readFileHeader e swapped got
      if hdr.versionMajor < pcapVersionMajor then .error "archaic pcap savefile format"
      else .ok (some (hdr.savefile swapped (magic = kuznetzovTcpdumpMagic), bs.drop 20))
  else .ok none

/-- `pcap_fopen_offline`, without pcap-ng files. -/
def pcapFopenOffline (e : Endian) (bs : Bytes) : Except String (Savefile × Bytes) :=
  let magic := bs.take 4
  if magic.length ≠ 4 then .error (truncatedHeader 4 magic.length)
  else match pcapCheckHeader e (e.read32 magic) (bs.drop 4) with
    | .error msg => .error msg
    | .ok (some p) => .ok p
    | .ok none => .error "unknown file format"

/-- The bytes of a field in the other order. -/
def swapField (data : Bytes) (off size : ℕ) : Bytes :=
  data.take off ++ ((data.drop off).take size).reverse ++ data.drop (off + size)

/-- Swapping a field keeps the length. -/
theorem length_swapField (data : Bytes) (off size : ℕ) :
    (swapField data off size).length = data.length := by
  simp only [swapField, List.length_append, List.length_take, List.length_reverse, List.length_drop]
  omega

/-- The fields of the header of a USB packet: `id`, `bus_id`, `ts_sec`, `ts_usec`,
`status`, `urb_len`, `data_len`, and those of the longer header. -/
def usbFields (headerLen64Bytes : Bool) : List (ℕ × ℕ) :=
  [(0, 8), (12, 2), (16, 8), (24, 4), (28, 4), (32, 4), (36, 4)] ++
    if headerLen64Bytes then [(48, 4), (52, 4), (56, 4), (60, 4)] else []

def swapFields : List (ℕ × ℕ) → Bytes → Bytes
  | [], data => data
  | (off, size) :: fields, data =>
    if data.length < off + size then data else swapFields fields (swapField data off size)

theorem length_swapFields (fields : List (ℕ × ℕ)) (data : Bytes) :
    (swapFields fields data).length = data.length := by
  induction fields generalizing data with
  | nil => rfl
  | cons f fields ih =>
      obtain ⟨off, size⟩ := f
      unfold swapFields
      split
      · rfl
      · rw [ih, length_swapField]

/-- Behind the read: the header of USB packets is in the byte order of its machine. -/
def Savefile.convert (sf : Savefile) (data : Bytes) : Bytes :=
  if sf.swapped then
    if sf.linktype = dltUsbLinux then swapFields (usbFields false) data
    else if sf.linktype = dltUsbLinuxMmapped then swapFields (usbFields true) data
    else data
  else data

/-- So does the conversion of a packet. -/
theorem Savefile.length_convert (sf : Savefile) (data : Bytes) :
    (sf.convert data).length = data.length := by
  unfold convert
  split
  · split
    · exact length_swapFields _ data
    · split
      · exact length_swapFields _ data
      · rfl
  · rfl

/-- The packet read into the buffer. -/
def Savefile.packet (sf : Savefile) (tvSec tvUsec caplen len : UInt32) (data : Bytes)
    (h : data.length = caplen.toNat) : PcapPkt :=
  ⟨tvSec, tvUsec, caplen, len, sf.convert data, (sf.length_convert data).trans h⟩

def truncatedData (caplen amtRead : ℕ) : String :=
  s!"truncated dump file; tried to read {caplen} captured bytes, only got {amtRead}"

/-- The bytes behind the header; a packet that is longer than the buffer is cut off. -/
def Savefile.readData (sf : Savefile) (tvSec tvUsec caplen len : UInt32) (bs : Bytes) :
    Reading BYTE PcapPkt String :=
  let got := bs.take caplen.toNat
  if hbuf : caplen.toNat > sf.bufsize then
    if caplen.toNat > 65535 then .error "bogus savefile header"
    else if h : got.length = caplen.toNat then
      .record (sf.packet tvSec tvUsec (UInt32.ofNat sf.bufsize) len (got.take sf.bufsize) (by
        rw [List.length_take, h, UInt32.toNat_ofNat_of_lt' sf.bufsize_lt]
        exact Nat.min_eq_left (Nat.le_of_lt hbuf))) (bs.drop caplen.toNat)
    else .error (truncatedData caplen.toNat got.length)
  else if h : got.length = caplen.toNat then
    .record (sf.packet tvSec tvUsec caplen len got h) (bs.drop caplen.toNat)
  else .error (truncatedData caplen.toNat got.length)

/-- `caplen` and `len`, which old files have in the other order. -/
def LengthsSwapped.order (caplen len : UInt32) : LengthsSwapped → UInt32 × UInt32
  | notSwapped => (caplen, len)
  | maybeSwapped => if caplen ≤ len then (caplen, len) else (len, caplen)
  | swapped => (len, caplen)

def truncatedRecord (toRead amtRead : ℕ) : String :=
  s!"truncated dump file; tried to read {toRead} header bytes, only got {amtRead}"

/-- `pcap_next_packet`. -/
def pcapNextPacket (e : Endian) (sf : Savefile) (bs : Bytes) : Reading BYTE PcapPkt String :=
  let hdr := bs.take sf.hdrsize
  if hdr.length ≠ sf.hdrsize then
    if hdr.length ≠ 0 then .error (truncatedRecord sf.hdrsize hdr.length) else .eof
  else
    let long v := if sf.swapped then swapLong v else v
    let caplen := long (e.read32 (hdr.drop 8))
    let len := long (e.read32 (hdr.drop 12))
    let lengths := sf.lengthsSwapped.order caplen len
    sf.readData (long (e.read32 hdr)) (long (e.read32 (hdr.drop 4))) lengths.1 lengths.2
      (bs.drop sf.hdrsize)

/-! ## Words -/

section Words

/-- A byte of a word, as a number. -/
theorem byteOf_toNat (v i : ℕ) : (byteOf v i).toNat = v / 256 ^ i % 256 := UInt8.toNat_ofNat'

/-- Four bytes are a word. -/
theorem toNat_le32 (a b c d : BYTE) :
    (UInt32.ofNat (a.toNat + 256 * b.toNat + 65536 * c.toNat + 16777216 * d.toNat)).toNat =
      a.toNat + 256 * b.toNat + 65536 * c.toNat + 16777216 * d.toNat := by
  have ha := a.toNat_lt
  have hb := b.toNat_lt
  have hc := c.toNat_lt
  have hd := d.toNat_lt
  rw [UInt32.toNat_ofNat']
  omega

/-- Two bytes are a short. -/
theorem toNat_le16 (a b : BYTE) :
    (UInt16.ofNat (a.toNat + 256 * b.toNat)).toNat = a.toNat + 256 * b.toNat := by
  have ha := a.toNat_lt
  have hb := b.toNat_lt
  rw [UInt16.toNat_ofNat']
  omega

/-- The bytes of a word in its own order. -/
theorem word32_eq (v : UInt32) :
    UInt32.ofNat ((byteOf v.toNat 0).toNat + 256 * (byteOf v.toNat 1).toNat +
      65536 * (byteOf v.toNat 2).toNat + 16777216 * (byteOf v.toNat 3).toNat) = v := by
  apply UInt32.toNat_inj.mp
  rw [toNat_le32]
  have hv := v.toNat_lt
  simp only [byteOf_toNat]
  omega

/-- A short is made of its bytes. -/
theorem word16_eq (v : UInt16) :
    UInt16.ofNat ((byteOf v.toNat 0).toNat + 256 * (byteOf v.toNat 1).toNat) = v := by
  apply UInt16.toNat_inj.mp
  rw [toNat_le16]
  have hv := v.toNat_lt
  simp only [byteOf_toNat]
  omega

/-- In little endian a word is written as it is read. -/
theorem little_bytes32 (a b c d : BYTE) :
    Endian.little.bytes32 (UInt32.ofNat (a.toNat + 256 * b.toNat + 65536 * c.toNat +
      16777216 * d.toNat)) = [a, b, c, d] := by
  have ha := a.toNat_lt
  have hb := b.toNat_lt
  have hc := c.toNat_lt
  have hd := d.toNat_lt
  simp only [Endian.bytes32, toNat_le32, List.cons.injEq, ← UInt8.toNat_inj, byteOf_toNat]
  refine ⟨?_, ?_, ?_, ?_, trivial⟩ <;> omega

theorem little_bytes16 (a b : BYTE) :
    Endian.little.bytes16 (UInt16.ofNat (a.toNat + 256 * b.toNat)) = [a, b] := by
  have ha := a.toNat_lt
  have hb := b.toNat_lt
  simp only [Endian.bytes16, toNat_le16, List.cons.injEq, ← UInt8.toNat_inj, byteOf_toNat]
  refine ⟨?_, ?_, trivial⟩ <;> omega

/-- Swapping twice gives the word back. -/
theorem swapLong_swapLong (v : UInt32) : swapLong (swapLong v) = v := by
  have hswap : Endian.little.bytes32 (swapLong v) =
      [byteOf v.toNat 3, byteOf v.toNat 2, byteOf v.toNat 1, byteOf v.toNat 0] :=
    little_bytes32 _ _ _ _
  rw [swapLong, hswap]
  exact word32_eq v

theorem swapShort_swapShort (v : UInt16) : swapShort (swapShort v) = v := by
  have hswap : Endian.little.bytes16 (swapShort v) = [byteOf v.toNat 1, byteOf v.toNat 0] :=
    little_bytes16 _ _
  rw [swapShort, hswap]
  exact word16_eq v

variable (e e' : Endian)

/-- A word that another machine has written. -/
theorem read32_bytes32 (v : UInt32) (bs : Bytes) :
    e.read32 (e'.bytes32 v ++ bs) = if e = e' then v else swapLong v := by
  cases e <;> cases e'
  · exact word32_eq v
  · rfl
  · rfl
  · exact word32_eq v

/-- A short that was written in the other order is read swapped. -/
theorem read16_bytes16 (v : UInt16) (bs : Bytes) :
    e.read16 (e'.bytes16 v ++ bs) = if e = e' then v else swapShort v := by
  cases e <;> cases e'
  · exact word16_eq v
  · rfl
  · rfl
  · exact word16_eq v

theorem length_bytes32 (v : UInt32) : (e.bytes32 v).length = 4 := by cases e <;> rfl

theorem length_bytes16 (v : UInt16) : (e.bytes16 v).length = 2 := by cases e <;> rfl

variable {e e'}

/-- The reader swaps exactly what was written in the other order. -/
theorem long_eq {v : UInt32} {bs rest : Bytes} (h : bs = e'.bytes32 v ++ rest) :
    (if e ≠ e' then swapLong (e.read32 bs) else e.read32 bs) = v := by
  rw [h, read32_bytes32]
  by_cases he : e = e'
  · simp [he]
  · simp [he, swapLong_swapLong]

/-- Swapped again it is the short that was written. -/
theorem short_eq {v : UInt16} {bs rest : Bytes} (h : bs = e'.bytes16 v ++ rest) :
    (if e ≠ e' then swapShort (e.read16 bs) else e.read16 bs) = v := by
  rw [h, read16_bytes16]
  by_cases he : e = e'
  · simp [he]
  · simp [he, swapShort_swapShort]

end Words

/-! ## The file header -/

section FileHeader

variable (e e' : Endian)

/-- The map of link types can be inverted where it is listed. -/
theorem linktypeToDlt_of_mem {p : UInt32 × UInt32} (hp : p ∈ linktypeMap) :
    linktypeToDlt p.2 = p.1 ∧ ltLinktype p.2 = p.2 := by
  -- along the list: the pairs themselves are too many
  have hall : linktypeMap.all fun p => linktypeToDlt p.2 = p.1 ∧ ltLinktype p.2 = p.2 := by
    decide +kernel
  exact of_decide_eq_true (List.all_eq_true.mp hall p hp)

/-- What is looked up is listed. -/
theorem mem_of_lookup {k v : UInt32} : ∀ {m : List (UInt32 × UInt32)}, m.lookup k = some v →
    (k, v) ∈ m
  | [], h => nomatch h
  | (k', v') :: m, h => by
      rw [List.lookup_cons] at h
      split at h
      · rename_i hk
        rw [eq_of_beq hk, ← Option.some.inj h]
        exact List.mem_cons_self
      · exact List.mem_cons_of_mem _ (mem_of_lookup h)

theorem or_and_distrib (a b c : UInt32) : (a ||| b) &&& c = a &&& c ||| b &&& c :=
  UInt32.toBitVec_inj.mp BitVec.and_or_distrib_right

/-- Supported codes are read back, beside the extension bits. -/
theorem linktype_roundtrip {dlt linktype ext : UInt32} (h : dltToLinktype dlt = some linktype)
    (hext : ltLinktypeExt ext = ext) :
    linktypeToDlt (ltLinktype (linktype ||| ext)) = dlt ∧
      ltLinktypeExt (linktype ||| ext) = ext := by
  obtain ⟨hdlt, hcode⟩ : linktypeToDlt linktype = dlt ∧ ltLinktype linktype = linktype :=
    linktypeToDlt_of_mem (mem_of_lookup h)
  unfold ltLinktype ltLinktypeExt at *
  constructor
  · have hlow : (linktype ||| ext) &&& 0x03FFFFFF = linktype := by
      rw [or_and_distrib, hcode, ← hext, UInt32.and_assoc,
        show (0xFC000000 : UInt32) &&& 0x03FFFFFF = 0 from rfl, UInt32.and_zero, UInt32.or_zero]
    rw [hlow, hdlt]
  · rw [or_and_distrib, hext, ← hcode, UInt32.and_assoc,
      show (0x03FFFFFF : UInt32) &&& 0xFC000000 = 0 from rfl, UInt32.and_zero, UInt32.zero_or]

/-- The header behind the magic number. -/
def headerTail (e : Endian) (linktype thiszone snaplen : UInt32) : Bytes :=
  e.bytes16 pcapVersionMajor ++ e.bytes16 pcapVersionMinor ++ e.bytes32 thiszone ++ e.bytes32 0 ++
    e.bytes32 snaplen ++ e.bytes32 linktype

/-- What the reader knows of the file. -/
def opened (p : PcapSource) : Savefile where
  swapped := e ≠ e'
  hdrsize := 16
  hdrsize_pos := by decide
  lengthsSwapped := .notSwapped
  versionMajor := pcapVersionMajor
  versionMinor := pcapVersionMinor
  tzoff := p.tzoff
  snapshot := p.snapshot
  linktype := p.linktype
  linktypeExt := p.linktypeExt
  upper := p.upper
  bufsize := bufsizeOf p.snapshot
  bufsize_lt := bufsizeOf_lt p.snapshot

/-- The header is read as it was written. -/
theorem readFileHeader_tail (linktype thiszone snaplen : UInt32) :
    readFileHeader e (e ≠ e') (headerTail e' linktype thiszone snaplen) =
      ⟨pcapVersionMajor, pcapVersionMinor, thiszone, 0, snaplen, linktype⟩ := by
  have h0 : headerTail e' linktype thiszone snaplen = e'.bytes16 pcapVersionMajor ++
      (headerTail e' linktype thiszone snaplen).drop 2 := by cases e' <;> rfl
  have h2 : (headerTail e' linktype thiszone snaplen).drop 2 = e'.bytes16 pcapVersionMinor ++
      (headerTail e' linktype thiszone snaplen).drop 4 := by cases e' <;> rfl
  have h4 : (headerTail e' linktype thiszone snaplen).drop 4 = e'.bytes32 thiszone ++
      (headerTail e' linktype thiszone snaplen).drop 8 := by cases e' <;> rfl
  have h8 : (headerTail e' linktype thiszone snaplen).drop 8 = e'.bytes32 0 ++
      (headerTail e' linktype thiszone snaplen).drop 12 := by cases e' <;> rfl
  have h12 : (headerTail e' linktype thiszone snaplen).drop 12 = e'.bytes32 snaplen ++
      (headerTail e' linktype thiszone snaplen).drop 16 := by cases e' <;> rfl
  have h16 : (headerTail e' linktype thiszone snaplen).drop 16 = e'.bytes32 linktype ++ [] := by
    cases e' <;> rfl
  simp only [readFileHeader, decide_eq_true_eq, PcapFileHeader.mk.injEq]
  exact ⟨short_eq h0, short_eq h2, long_eq h4, long_eq h8, long_eq h12, long_eq h16⟩

/-- Behind the magic number it has 20 bytes. -/
theorem length_headerTail (linktype thiszone snaplen : UInt32) :
    (headerTail e linktype thiszone snaplen).length = 20 := by
  simp only [headerTail, List.length_append, length_bytes16, length_bytes32]

/-- The magic number tells the order of the file. -/
theorem magic_eq : ¬ (e.read32 (e'.bytes32 tcpdumpMagic) = tcpdumpMagic ∨
    e.read32 (e'.bytes32 tcpdumpMagic) = kuznetzovTcpdumpMagic) ↔ e ≠ e' := by
  cases e <;> cases e' <;> decide

/-- The magic number tells whether the order is the other one. -/
theorem long_magic : (if e ≠ e' then swapLong (e.read32 (e'.bytes32 tcpdumpMagic))
    else e.read32 (e'.bytes32 tcpdumpMagic)) = tcpdumpMagic :=
  long_eq (List.append_nil _).symm

/-- A header that is cut is refused. -/
theorem pcapCheckHeader_cut {bs : Bytes} (h : bs.length < 20) :
    pcapCheckHeader e (e.read32 (e'.bytes32 tcpdumpMagic)) bs =
      .error (truncatedHeader 24 bs.length) := by
  have htake : bs.take 20 = bs := List.take_of_length_le (by omega)
  simp only [pcapCheckHeader, magic_eq, decide_eq_true_eq, long_magic, true_or, if_true, htake]
  rw [if_pos (by omega)]

/-- A whole one is accepted. -/
theorem pcapCheckHeader_tail {linktype : UInt32} (p : PcapSource) (body : Bytes)
    (hcode : dltToLinktype p.linktype = some linktype) :
    pcapCheckHeader e (e.read32 (e'.bytes32 tcpdumpMagic))
        (headerTail e' (linktype ||| p.linktypeExt) p.tzoff p.snapshot ++ body) =
      .ok (some (opened e e' p, body)) := by
  have hlength := length_headerTail e' (linktype ||| p.linktypeExt) p.tzoff p.snapshot
  have htake : (headerTail e' (linktype ||| p.linktypeExt) p.tzoff p.snapshot ++ body).take 20 =
      headerTail e' (linktype ||| p.linktypeExt) p.tzoff p.snapshot := List.take_left' hlength
  have hdrop : (headerTail e' (linktype ||| p.linktypeExt) p.tzoff p.snapshot ++ body).drop 20 =
      body := List.drop_left' hlength
  obtain ⟨hdlt, hext⟩ := linktype_roundtrip hcode p.upper
  have hheader := readFileHeader_tail e e' (linktype ||| p.linktypeExt) p.tzoff p.snapshot
  have hpatched : ¬ tcpdumpMagic = kuznetzovTcpdumpMagic := by decide
  simp only [pcapCheckHeader, magic_eq, decide_eq_true_eq, long_magic, true_or, if_true, htake,
    hlength, hdrop, ne_eq, not_true, if_false]
  simp only [ne_eq] at hheader
  rw [hheader]
  simp only [if_false, PcapFileHeader.savefile, hdlt, hext, hpatched, decide_false,
    Bool.false_and, Bool.false_eq_true]
  rfl

/-- A file that was cut is opened when its header is whole. -/
theorem openOffline_dump {p : PcapSource} {hdr : Bytes} (hopen : pcapDumpOpen e' p = some hdr)
    (body : Bytes) (n : ℕ) :
    pcapFopenOffline e ((hdr ++ body).take n) =
      if n < 4 then .error (truncatedHeader 4 n)
      else if n < 24 then .error (truncatedHeader 24 (n - 4))
      else .ok (opened e e' p, body.take (n - 24)) := by
  unfold pcapDumpOpen at hopen
  split at hopen
  case isFalse => cases hopen
  obtain ⟨linktype, hcode, rfl⟩ := Option.map_eq_some_iff.mp hopen
  -- the file starts with the magic number, which is four of the header's 24 bytes
  have hfile : sfWriteHeader e' (linktype ||| p.linktypeExt) p.tzoff p.snapshot ++ body =
      e'.bytes32 tcpdumpMagic ++
        (headerTail e' (linktype ||| p.linktypeExt) p.tzoff p.snapshot ++ body) := by
    simp only [sfWriteHeader, headerTail, List.append_assoc]
  have htail := length_headerTail e' (linktype ||| p.linktypeExt) p.tzoff p.snapshot
  have hmagic := length_bytes32 e' tcpdumpMagic
  rw [hfile, pcapFopenOffline, List.take_take, List.drop_take]
  -- the file is cut in the magic number, in the rest of the header, or behind it
  by_cases h4 : n < 4
  · have hlength : ((e'.bytes32 tcpdumpMagic ++ (headerTail e' (linktype ||| p.linktypeExt) p.tzoff
        p.snapshot ++ body)).take (min 4 n)).length = n := by
      rw [List.length_take, List.length_append]
      omega
    rw [if_pos h4]
    simp only [hlength]
    rw [if_pos (by omega)]
  rw [if_neg h4, Nat.min_eq_left (by omega), List.take_left' hmagic, List.drop_left' hmagic]
  simp only [hmagic, ne_eq, not_true, if_false]
  by_cases h24 : n < 24
  · have hlength : ((headerTail e' (linktype ||| p.linktypeExt) p.tzoff p.snapshot ++ body).take
        (n - 4)).length = n - 4 := by
      rw [List.length_take, List.length_append]
      omega
    rw [if_pos h24, pcapCheckHeader_cut e e' (by omega), hlength]
  · rw [if_neg h24, List.take_append, List.take_of_length_le (by omega), htail,
      pcapCheckHeader_tail e e' p _ hcode, show n - 4 - 20 = n - 24 by omega]

/-- The header has 24 bytes. -/
theorem length_pcapDumpOpen {p : PcapSource} {hdr : Bytes} (hopen : pcapDumpOpen e p = some hdr) :
    hdr.length = 24 := by
  unfold pcapDumpOpen at hopen
  split at hopen
  case isFalse => cases hopen
  obtain ⟨linktype, -, rfl⟩ := Option.map_eq_some_iff.mp hopen
  simp only [sfWriteHeader, List.length_append, length_bytes16, length_bytes32]

/-- The file has not been cut. -/
theorem openOffline_whole {p : PcapSource} {hdr : Bytes} (hopen : pcapDumpOpen e' p = some hdr)
    (body : Bytes) : pcapFopenOffline e (hdr ++ body) = .ok (opened e e' p, body) := by
  have hlength := length_pcapDumpOpen e' hopen
  have hcut := openOffline_dump e e' hopen body (hdr ++ body).length
  rw [List.take_length, List.length_append, if_neg (by omega), if_neg (by omega),
    List.take_of_length_le (by omega)] at hcut
  exact hcut

end FileHeader

/-! ## Packets -/

section Packets

/-- The packet as it is in the buffer of the reader. -/
def Savefile.view (sf : Savefile) (p : PcapPkt) : PcapPkt :=
  if h : p.caplen.toNat > sf.bufsize then
    sf.packet p.tvSec p.tvUsec (UInt32.ofNat sf.bufsize) p.len (p.data.take sf.bufsize) (by
      rw [List.length_take, p.length, UInt32.toNat_ofNat_of_lt' sf.bufsize_lt]
      exact Nat.min_eq_left (Nat.le_of_lt h))
  else sf.packet p.tvSec p.tvUsec p.caplen p.len p.data p.length

/-- The reader has room for the packet, or can cut it off. -/
def Savefile.Readable (sf : Savefile) (p : PcapPkt) : Prop :=
  p.caplen.toNat ≤ sf.bufsize ∨ p.caplen.toNat ≤ 65535

variable {sf : Savefile} {p : PcapPkt}

/-- Reading a packet leaves no more than there was. -/
theorem readData_length {tvSec tvUsec caplen len : UInt32} {bs rest : Bytes}
    (h : sf.readData tvSec tvUsec caplen len bs = .record p rest) : rest.length ≤ bs.length := by
  unfold Savefile.readData at h
  dsimp only at h
  split_ifs at h <;> cases h <;> exact List.length_drop.trans_le (Nat.sub_le _ _)

/-- Every packet takes up some of the file. -/
theorem pcapNextPacket_length {e : Endian} {bs rest : Bytes}
    (h : pcapNextPacket e sf bs = .record p rest) : rest.length < bs.length := by
  have hpos := sf.hdrsize_pos
  unfold pcapNextPacket at h
  dsimp only at h
  split at h
  · split at h <;> cases h
  · rename_i hlength
    have hle := readData_length h
    rw [List.length_take] at hlength
    rw [List.length_drop] at hle
    omega

/-- A packet that was written is read. -/
theorem readData_append (h : sf.Readable p) (rest : Bytes) :
    sf.readData p.tvSec p.tvUsec p.caplen p.len (p.data ++ rest) = .record (sf.view p) rest := by
  have hgot : (p.data ++ rest).take p.caplen.toNat = p.data := List.take_left' p.length
  have hrest : (p.data ++ rest).drop p.caplen.toNat = rest := List.drop_left' p.length
  unfold Savefile.readData Savefile.view
  simp only [hgot, hrest, p.length, dite_true]
  by_cases hbuf : p.caplen.toNat > sf.bufsize
  · have hsmall : ¬ p.caplen.toNat > 65535 := by
      rcases h with h | h <;> omega
    simp only [hbuf, hsmall, dite_true, if_false]
  · simp only [hbuf, dite_false]

/-- One that was cut is refused. -/
theorem readData_cut (h : sf.Readable p) {bs : Bytes} (hlt : bs.length < p.caplen.toNat) :
    sf.readData p.tvSec p.tvUsec p.caplen p.len bs =
      .error (truncatedData p.caplen.toNat bs.length) := by
  have hgot : bs.take p.caplen.toNat = bs := List.take_of_length_le (Nat.le_of_lt hlt)
  have hne : ¬ bs.length = p.caplen.toNat := Nat.ne_of_lt hlt
  unfold Savefile.readData
  simp only [hgot, hne, dite_false]
  by_cases hbuf : p.caplen.toNat > sf.bufsize
  · have hsmall : ¬ p.caplen.toNat > 65535 := by
      rcases h with h | h <;> omega
    simp only [hbuf, hsmall, dite_true, if_false]
  · simp only [hbuf, dite_false]

variable (e e' : Endian) (q : PcapSource)

/-- A packet's header has 16 bytes. -/
theorem length_sfPkthdr (p : PcapPkt) : (sfPkthdr e p).length = 16 := by
  simp only [sfPkthdr, List.length_append, length_bytes32]

/-- The fields are read as they have been written. -/
theorem pcapNextPacket_header (p : PcapPkt) (bs : Bytes) :
    pcapNextPacket e (opened e e' q) (sfPkthdr e' p ++ bs) =
      (opened e e' q).readData p.tvSec p.tvUsec p.caplen p.len bs := by
  have hlength := length_sfPkthdr e' p
  have htake : (sfPkthdr e' p ++ bs).take 16 = sfPkthdr e' p := List.take_left' hlength
  have hdrop : (sfPkthdr e' p ++ bs).drop 16 = bs := List.drop_left' hlength
  have h0 : sfPkthdr e' p = e'.bytes32 p.tvSec ++ (sfPkthdr e' p).drop 4 := by cases e' <;> rfl
  have h4 : (sfPkthdr e' p).drop 4 = e'.bytes32 p.tvUsec ++ (sfPkthdr e' p).drop 8 := by
    cases e' <;> rfl
  have h8 : (sfPkthdr e' p).drop 8 = e'.bytes32 p.caplen ++ (sfPkthdr e' p).drop 12 := by
    cases e' <;> rfl
  have h12 : (sfPkthdr e' p).drop 12 = e'.bytes32 p.len ++ [] := by cases e' <;> rfl
  have hsize : (opened e e' q).hdrsize = 16 := rfl
  have horder : (opened e e' q).lengthsSwapped = .notSwapped := rfl
  have hswapped : ((opened e e' q).swapped = true) = (e ≠ e') := decide_eq_true_eq
  simp only [pcapNextPacket, hsize, horder, hswapped, htake, hdrop, hlength, ne_self_iff_false,
    if_false, LengthsSwapped.order, long_eq h0, long_eq h4, long_eq h8, long_eq h12]

/-- At the end of the file there is no packet. -/
theorem pcapNextPacket_nil (sf : Savefile) : pcapNextPacket e sf [] = .eof := by
  have hpos := sf.hdrsize_pos
  simp only [pcapNextPacket, List.take_nil, List.length_nil, ne_eq, not_true, if_false]
  rw [if_pos (by omega)]

/-- What is shown of a packet fits the buffer. -/
theorem Savefile.caplen_view (sf : Savefile) (p : PcapPkt) :
    (sf.view p).caplen.toNat ≤ sf.bufsize := by
  unfold view
  split
  · exact (UInt32.toNat_ofNat_of_lt' sf.bufsize_lt).le
  · rename_i h
    exact Nat.not_lt.mp h

/-- A packet that was in the buffer of this machine is read as it was. -/
theorem view_opened_self {q : PcapSource} {p : PcapPkt}
    (h : p.caplen.toNat ≤ bufsizeOf q.snapshot) : (opened e e q).view p = p := by
  have hbuf : ¬ p.caplen.toNat > (opened e e q).bufsize := Nat.not_lt.mpr h
  have hswapped : (opened e e q).swapped = false := by simp [opened]
  simp only [Savefile.view, hbuf, dite_false, Savefile.packet, Savefile.convert, hswapped,
    Bool.false_eq_true, if_false]

/-- What is copied to the header of another file. -/
def Savefile.source (sf : Savefile) : PcapSource where
  activated := true
  linktype := sf.linktype
  linktypeExt := sf.linktypeExt
  upper := sf.upper
  tzoff := sf.tzoff
  snapshot := sf.snapshot

/-- The packets that `pcap_dump` writes, as records. -/
def packetFormat : RecordFormat {p // (opened e e' q).Readable p} BYTE PcapPkt String where
  encode p := pcapDump e' p.1
  next := pcapNextPacket e (opened e e' q)
  view p := (opened e e' q).view p.1
  next_nil := pcapNextPacket_nil e (opened e e' q)
  next_encode p rest := by
    rw [pcapDump, List.append_assoc, pcapNextPacket_header]
    exact readData_append p.2 rest
  next_cut p n hpos hlt := by
    have hlength := length_sfPkthdr e' p.1
    have hdata := p.1.length
    rw [pcapDump, List.length_append] at hlt
    rw [pcapDump, List.take_append, hlength]
    by_cases hhdr : n < 16
    · have htake : ((sfPkthdr e' p.1).take n ++ p.1.data.take (n - 16)).length = n := by
        rw [List.length_append, List.length_take, List.length_take]
        omega
      have hall := List.take_of_length_le (i := 16) (Nat.le_of_lt (htake.symm ▸ hhdr))
      refine ⟨truncatedRecord 16 n, ?_⟩
      simp only [pcapNextPacket, opened, hall, htake]
      rw [if_pos (by omega), if_pos (by omega)]
    · rw [List.take_of_length_le (by omega), pcapNextPacket_header]
      exact ⟨_, readData_cut p.2 (by rw [List.length_take]; omega)⟩

end Packets

end MobiPerf.Capture
