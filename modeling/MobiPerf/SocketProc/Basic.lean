import Mathlib.Data.List.Basic
import Mathlib.Logic.Function.Basic

/-!
# SocketProc.Basic — the data of `socket_proc.c`

The tables that map a captured packet to an application: the connection table
`conns`, the process and application tables it is joined with, and the two
index tables `port2connid` and `ip2connid`.

Conventions of the model:

* the C types `DWORD`, `WORD`, `BYTE` are the fixed-width Lean types; an `int`
  whose value is a counter, a port or an id is a `ℕ` or an `Int`;
* an array is a total function on `ℕ` (global memory starts zeroed, and what
  lies past a counter keeps its old contents), with the source's element count
  in `Limits`: an access outside it halts the run with `outOfBounds`, where C
  leaves the behaviour undefined;
* `exit(0)` halts the run as well, with the message printed before it.
-/

namespace MobiPerf.SocketProc

abbrev DWORD := UInt32
abbrev WORD := UInt16
abbrev BYTE := UInt8

/-- The contents of a file or of a text buffer. -/
abbrev Bytes := List BYTE

/-! ## Constants -/

def maxPids : ℕ := 8192
def maxConns : ℕ := 512
def maxProcs : ℕ := 512

def protTcp : ℕ := 6
def protUdp : ℕ := 17

/-- Seconds after its last use at which an entry counts as stale. -/
def timeout : Int := 30

def appBins : ℕ := 256
def inoBucks : ℕ := 128

/-- The element counts of the fixed arrays. -/
structure Limits where
  conns : ℕ
  pids : ℕ
  procs : ℕ
deriving Repr

/-- The element counts the source declares. -/
def srcLimits : Limits := ⟨maxConns, maxPids, maxProcs⟩

/-- Why a run stops. -/
inductive Halt where
  | exit (msg : String)
  | outOfBounds (array : String)
deriving DecidableEq, Repr

/-! ## Hash functions -/

/-- `INOHASH`: the bucket of an inode. -/
def inoHash (inode : DWORD) : ℕ :=
  (((inode * 31415) >>> 3) &&& UInt32.ofNat (inoBucks - 1)).toNat

/-- `IPHASH`. In C `+` binds tighter than `>>`, so the shift applies to the
whole sum. -/
def ipHash (ip : DWORD) : WORD :=
  (((ip &&& 0xFFFF) + (ip &&& 0xFFFF0000)) >>> 16).toUInt16

/-! ## Tables -/

/-- `CONN_INFO`: one socket of `/proc/net`, with the process and application
it was joined to (`-1` when unknown) and the time it was last used. -/
structure ConnInfo where
  localIP : DWORD
  remoteIP : DWORD
  localPort : ℕ
  remotePort : ℕ
  protocol : ℕ
  iNode : DWORD
  pid : Int
  appid : Int
  tvSec : Int
deriving DecidableEq, Repr, Inhabited

/-- `PROC_NAME`: the first string of a process's command line. -/
structure ProcName where
  pid : Int
  name : Bytes
deriving DecidableEq, Repr, Inhabited

/-- `APP_INFO`: one link of a bin's chain. -/
structure AppInfo where
  name : Bytes
  hash : ℕ
  appid : ℕ
deriving DecidableEq, Repr

/-- The connection table and the inode buckets that point into it. Column 0 of
a bucket is its element count; the cells are bytes. -/
structure ConnTable where
  conns : ℕ → ConnInfo
  nConns : ℕ
  nConnsWithPID : ℕ
  nNewConns : ℕ
  iNode2connid : ℕ → ℕ → BYTE

/-- The process names read so far and the process ids, `PIDs[0..nPIDs)`. -/
structure ProcTable where
  procs : ℕ → ProcName
  nProcs : ℕ
  pids : List Int

/-- The application dictionary and the lines written to the appname file. -/
structure AppTable where
  ppApps : ℕ → List AppInfo
  nApps : ℕ
  appNames : List Bytes

/-- One side index into `conns`, `port2connid` or `ip2connid`: the slot of a
key (`-1` not used, `-2` several entries, else a connection id) and the list
of the slots set since the last clean-up. -/
structure ConnIndex where
  slot : ℕ → Int
  setList : List ℕ

/-- All globals the attribution reads or writes. -/
structure State extends ConnTable, ProcTable, AppTable where
  port2connid : ConnIndex
  ip2connid : ConnIndex
  exitFlag : ℕ
  bearerChangedvalue : ℕ
  pcapFilename : String

/-- The entries `conns[0..nConns)` in table order. -/
def ConnTable.entries (t : ConnTable) : List ConnInfo :=
  (List.range t.nConns).map t.conns

/-- Globals before `main`: zeroed memory. -/
def State.zero : State where
  conns := fun _ => default
  nConns := 0
  nConnsWithPID := 0
  nNewConns := 0
  iNode2connid := fun _ _ => 0
  procs := fun _ => default
  nProcs := 0
  pids := []
  ppApps := fun _ => []
  nApps := 0
  appNames := []
  port2connid := ⟨fun _ => 0, []⟩
  ip2connid := ⟨fun _ => 0, []⟩
  exitFlag := 0
  bearerChangedvalue := 0
  pcapFilename := ""

/-- The five fields by which two entries describe one connection. -/
def ConnInfo.sameConn (a b : ConnInfo) : Bool :=
  a.localIP = b.localIP && a.remoteIP = b.remoteIP && a.localPort = b.localPort &&
    a.remotePort = b.remotePort && a.protocol = b.protocol

/-- Not timed out at time `curSec`. -/
def ConnInfo.Fresh (c : ConnInfo) (curSec : Int) : Prop :=
  curSec < c.tvSec + timeout

instance (c : ConnInfo) (curSec : Int) : Decidable (c.Fresh curSec) :=
  inferInstanceAs (Decidable (_ < _))

/-! ## Reading the entries -/

theorem ConnTable.getElem?_entries (t : ConnTable) (i : ℕ) :
    t.entries[i]? = if i < t.nConns then some (t.conns i) else none := by
  unfold entries
  split
  · rename_i h
    simp [h]
  · rename_i h
    simp [h]

theorem ConnTable.mem_entries {t : ConnTable} {c : ConnInfo} :
    c ∈ t.entries ↔ ∃ i < t.nConns, t.conns i = c := by
  simp [entries]

theorem ConnTable.mem_entries_of_lt {t : ConnTable} {i : ℕ} (h : i < t.nConns) :
    t.conns i ∈ t.entries :=
  t.mem_entries.mpr ⟨i, h, rfl⟩

end MobiPerf.SocketProc
