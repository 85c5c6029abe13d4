import MobiPerf.SocketProc.Packet

/-!
# SocketProc.Uses — the indexes a call uses

Every index that a call uses into one of the fixed arrays, listed function by
function up to where the run halts. A loop or test that stops early is given
every index it can use.
-/

namespace MobiPerf.SocketProc

open Lib

/-- The fixed arrays; of `iNode2connid` a row. -/
inductive ArrayName where
  | conns
  | pids
  | procs
  | port2connidSetList
  | ip2connidSetList
  | iNode2connid
deriving DecidableEq, Repr

/-- The declared number of elements. -/
def ArrayName.size : ArrayName → ℕ
  | .pids => maxPids
  | .procs => maxProcs
  | _ => maxConns

/-- An index into an array. -/
abbrev Use := ArrayName × ℕ

def Use.InBounds (u : Use) : Prop := u.2 < u.1.size

instance (u : Use) : Decidable u.InBounds := inferInstanceAs (Decidable (_ < _))

/-- The indexes of a loop over the first `n` elements. -/
def upTo (a : ArrayName) (n : ℕ) : List Use := (List.range n).map fun i => (a, i)

/-! ## The uses of each function -/

/-- `Init`. -/
def initUses (s : State) : List Use :=
  (.iNode2connid, 0) :: upTo .port2connidSetList s.port2connid.setList.length ++
    upTo .ip2connidSetList s.ip2connid.setList.length

/-- The lines of a socket table below its header. -/
def netLines (fs : ProcFs) (filename : String) : List Bytes :=
  match fs.netFile filename with
  | none => []
  | some content => (fgetsLines 4096 content.length content).tail

/-- One line of `ReadConnections`: the entry being filled in and, if it is
counted, the count and the new column of its bucket. -/
def readLineUses (protocol : ℕ) (curSec : Int) (t : ConnTable) (line : Bytes) : List Use :=
  (.conns, t.nConns) :: after (readLine srcLimits protocol curSec t line) fun _ =>
    match (fields (cString line))[9]? with
    | none => []
    | some f =>
      [(.iNode2connid, 0),
        (.iNode2connid, (t.nextColumn (inoHash (UInt32.ofInt (atoi f)))).toNat)]

/-- `ReadConnections`. -/
def readConnectionsUses (fs : ProcFs) (filename : String) (protocol : ℕ) (curSec : Int)
    (t : ConnTable) : List Use :=
  foldLog (readLine srcLimits protocol curSec) (readLineUses protocol curSec)
    (netLines fs filename) t

/-- The four calls of `ReadConnections`. -/
def readAllUses (fs : ProcFs) (curSec : Int) (t : ConnTable) : List Use :=
  readConnectionsUses fs "/proc/net/tcp" protTcp curSec t ++
  after (readConnections srcLimits fs "/proc/net/tcp" protTcp curSec t) fun t =>
  readConnectionsUses fs "/proc/net/tcp6" protTcp curSec t ++
  after (readConnections srcLimits fs "/proc/net/tcp6" protTcp curSec t) fun t =>
  readConnectionsUses fs "/proc/net/udp" protUdp curSec t ++
  after (readConnections srcLimits fs "/proc/net/udp" protUdp curSec t) fun t =>
  readConnectionsUses fs "/proc/net/udp6" protUdp curSec t

/-- One descriptor of `ReadProcFD`: the columns of the inode's bucket and the
entries they point to. -/
def readFdLinkUses (t : ConnTable) (link : Bytes) : List Use :=
  let buf := link.take 4096
  if 9 < buf.length ∧ socketPrefix <+: buf ∧ buf.getLast? = some 93 then
    let h := inoHash (UInt32.ofInt (atoi (cString (buf.dropLast.drop 8))))
    (.iNode2connid, 0) :: (List.range (t.iNode2connid h 0).toNat).flatMap fun i =>
      [(.iNode2connid, i + 1), (.conns, (t.iNode2connid h (i + 1)).toNat)]
  else []

def readLinksUses (pid : Int) : List Bytes → ConnTable → List Use
  | [], _ => []
  | link :: links, t => readFdLinkUses t link ++ readLinksUses pid links (readFdLink pid t link)

/-- `ReadProcFD`. -/
def readProcFDUses (fs : ProcFs) (pid : Int) (t : ConnTable) : List Use :=
  match fs.fds pid with
  | none => []
  | some links => readLinksUses pid links t

/-- The loop over `PIDs`, last first. -/
def attachFromUses (fs : ProcFs) : List Int → ConnTable → List Use
  | [], _ => []
  | pid :: pids, t =>
    (.pids, pids.length) :: readProcFDUses fs pid t ++
      let t := readProcFD fs pid t
      if t.nConnsWithPID = t.nNewConns then [] else attachFromUses fs pids t

/-- One entry of the directory loop of `AttachProcessInfo`. -/
def pushPidUses (pids : List Int) (name : Bytes) : List Use :=
  if getProcessID name = -1 then [] else [(.pids, pids.length)]

/-- `AttachProcessInfo`. -/
def attachProcessInfoUses (fs : ProcFs) (t : ConnTable) (p : ProcTable) : List Use :=
  foldLog (pushPid srcLimits) pushPidUses (fs.dirents.getD []) p.pids ++
  after ((fs.dirents.getD []).foldlM (pushPid srcLimits) p.pids) fun pids =>
  attachFromUses fs pids.reverse t

/-- One iteration of `UpdateNames`, with its call of `GetProcName`. -/
def updateNameUses (fs : ProcFs) (st : NameLoop) (i : ℕ) : List Use :=
  let (t, p, _) := st
  let pid := (t.conns i).pid
  (.conns, i) :: if (t.conns i).appid ≠ -1 then [] else
    upTo .procs p.nProcs ++
      match (List.range p.nProcs).find? fun i => (p.procs i).pid = pid, fs.cmdline pid with
      | none, some _ => [(.procs, p.nProcs)]
      | _, _ => []

/-- `UpdateNames`. -/
def updateNamesUses (fs : ProcFs) (st : NameLoop) : List Use :=
  foldLog (updateName srcLimits fs) (updateNameUses fs) (List.range st.1.nConns) st

/-- `CleanConnectionInfo`: the marking loop compares an entry with the earlier
ones, the copying loop moves it to cell `nConns2`. -/
def cleanConnectionInfoUses (curSec : Int) (t : ConnTable) : List Use :=
  let marked := (List.range t.nConns).foldl (markConn curSec) t.conns
  let mark i := (.conns, i) :: upTo .conns i
  let keep i := [(.conns, i), (.conns, ((List.range i).foldl keepConn (marked, 0)).2)]
  (List.range t.nConns).flatMap mark ++ (List.range t.nConns).flatMap keep

/-- One iteration of an index build with set list `a`. -/
def indexEntryUses (a : ArrayName) (key : ConnInfo → ℕ) (conns : ℕ → ConnInfo) (ix : ConnIndex)
    (i : ℕ) : List Use :=
  (.conns, i) :: if (conns i).appid ≠ -1 ∧ ix.slot (key (conns i)) = -1
    then [(a, ix.setList.length)] else []

/-- `UpdatePort2Connid` and `UpdateIP2Connid`. -/
def updateConnidUses (a : ArrayName) (key : ConnInfo → ℕ) (t : ConnTable) (ix : ConnIndex) :
    List Use :=
  if ix.setList.length ≠ 0 then []
  else foldLog (indexEntry srcLimits key t.conns) (indexEntryUses a key t.conns)
    (List.range t.nConns) ix

/-- `UpdateProcessSocketInfo`, from `AttachProcessInfo` on. -/
def joinUses (fs : ProcFs) (curSec : Int) (s : State) (t : ConnTable) : List Use :=
  attachProcessInfoUses fs t s.toProcTable ++
  after (attachProcessInfo srcLimits fs t s.toProcTable) fun (t, p) =>
  updateNamesUses fs (t, p, s.toAppTable) ++
  after (updateNames srcLimits fs (t, p, s.toAppTable)) fun (t, _, _) =>
  cleanConnectionInfoUses curSec t ++
  let t := cleanConnectionInfo curSec t
  updateConnidUses .port2connidSetList portKey t s.port2connid ++
  after (updatePort2Connid srcLimits t s.port2connid) fun _ =>
  updateConnidUses .ip2connidSetList ipKey t s.ip2connid

/-- `UpdateProcessSocketInfo`. -/
def updateProcessSocketInfoUses (fs : ProcFs) (curSec : Int) (s : State) : List Use :=
  initUses s ++
  let s := init s
  readAllUses fs curSec s.toConnTable ++
  after (readAll srcLimits fs curSec s.toConnTable) (joinUses fs curSec s)

/-- One lookup of `UpdatePacket_Core`: the entries the two slots name, and all of
them for a search. -/
def lookupConnUses (pkt : Packet) (s : State) : List Use :=
  let cid1 := s.port2connid.slot pkt.portSlot
  let cid2 := s.ip2connid.slot pkt.ipSlot
  (if 0 ≤ cid1 then [(.conns, cid1.toNat)] else []) ++
    (if 0 ≤ cid2 then [(.conns, cid2.toNat)] else []) ++
    if cid1 = -2 ∨ cid2 = -2 then upTo .conns s.nConns else []

/-- `UpdatePacket_Core`. -/
def updatePacketCoreUses (fs : ProcFs) (pkt : Packet) (s : State) : List Use :=
  lookupConnUses pkt s ++
  after (lookupConn (fun c => c.Fresh pkt.curSec) pkt s) fun hit =>
  match hit with
  | some _ => []
  | none =>
    updateProcessSocketInfoUses fs pkt.curSec s ++
    after (updateProcessSocketInfo srcLimits fs pkt.curSec s) fun s =>
    lookupConnUses pkt s

/-- One event; a restart only sets counters. -/
def uses : Event → State → List Use
  | .restart _, _ => []
  | .packet fs pkt, s => updatePacketCoreUses fs pkt s

/-- A run, up to where it halts. -/
def runUses : List Event → State → List Use
  | [], _ => []
  | e :: es, s => uses e s ++
    match step srcLimits e s with
    | none => []
    | some s => runUses es s

end MobiPerf.SocketProc
