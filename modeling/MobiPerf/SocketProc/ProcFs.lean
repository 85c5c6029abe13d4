import MobiPerf.Lib.Fallible
import MobiPerf.SocketProc.Basic

/-!
# SocketProc.ProcFs — reading `/proc`

What the attribution reads from the kernel: the four socket tables of
`/proc/net`, the descriptors of each process and the command lines. The files
are an argument (`ProcFs`), so a statement about a call speaks of every
contents they can have. `char` is unsigned, as on the ARM target.
-/

namespace MobiPerf.SocketProc

/-- A snapshot of `/proc`, as one call sees it. `none` is a file or directory
that cannot be opened. -/
structure ProcFs where
  /-- the text of a file of `/proc/net` -/
  netFile : String → Option Bytes
  /-- the entry names of `/proc`, in `readdir` order -/
  dirents : Option (List Bytes)
  /-- the link targets of `/proc/<pid>/fd/*`; a failing `readlink` is `[]` -/
  fds : Int → Option (List Bytes)
  /-- the text of `/proc/<pid>/cmdline` -/
  cmdline : Int → Option Bytes

/-! ## The C library -/

/-- The text of a buffer: the bytes before its first NUL. -/
def cString (bs : Bytes) : Bytes := bs.takeWhile (· ≠ 0)

/-- At most `n` bytes of a stream, up to and including a newline, and the
rest of the stream. -/
def takeLine : ℕ → Bytes → Bytes × Bytes
  | 0, bs => ([], bs)
  | _ + 1, [] => ([], [])
  | n + 1, b :: bs =>
    if b = 10 then ([b], bs)
    else match takeLine n bs with
      | (line, rest) => (b :: line, rest)

/-- `fgets(buf, n, ifs)`; `none` is its `NULL`, which leaves `buf` as it was. -/
def fgets (n : ℕ) (stream : Bytes) : Option (Bytes × Bytes) :=
  if stream = [] then none else some (takeLine (n - 1) stream)

/-- The lines repeated `fgets` calls return until the end of the file. Each
takes a byte at least, so the file's length bounds their number. -/
def fgetsLines (n : ℕ) : ℕ → Bytes → List Bytes
  | 0, _ => []
  | fuel + 1, stream =>
    match fgets n stream with
    | none => []
    | some (line, rest) => line :: fgetsLines n fuel rest

/-- A line that is short enough is taken whole, with its newline. -/
theorem takeLine_append (line rest : Bytes) {n : ℕ} (hclean : ∀ b ∈ line, b ≠ 10)
    (hn : line.length < n) : takeLine n (line ++ 10 :: rest) = (line ++ [10], rest) := by
  induction line generalizing n with
  | nil =>
      cases n with
      | zero => cases hn
      | succ n => simp [takeLine]
  | cons b line ih =>
      simp only [List.forall_mem_cons] at hclean
      cases n with
      | zero => cases hn
      | succ n =>
          have hrec := ih hclean.2 (Nat.lt_of_succ_lt_succ hn)
          rw [List.cons_append, takeLine, if_neg hclean.1, hrec]
          rfl

/-- A line that is taken whole is the first one read. -/
theorem fgetsLines_cons {n fuel : ℕ} {line rest : Bytes} (hne : line ≠ [])
    (htake : takeLine (n - 1) (line ++ rest) = (line, rest)) :
    fgetsLines n (fuel + 1) (line ++ rest) = line :: fgetsLines n fuel rest := by
  have hget : fgets n (line ++ rest) = some (line, rest) := by
    rw [fgets, if_neg (List.append_ne_nil_of_left_ne_nil hne _), htake]
  rw [fgetsLines, hget]

/-- `fgets` gives the lines of a file one by one. -/
theorem fgetsLines_flatMap {n fuel : ℕ} (lines : List Bytes)
    (hlines : ∀ l ∈ lines, (∀ b ∈ l, b ≠ 10) ∧ l.length + 1 < n)
    (hfuel : lines.length ≤ fuel) :
    fgetsLines n fuel (lines.flatMap (· ++ [10])) = lines.map (· ++ [10]) := by
  induction lines generalizing fuel with
  | nil => cases fuel <;> rfl
  | cons l lines ih =>
      simp only [List.forall_mem_cons] at hlines
      rcases fuel with _ | fuel
      · cases hfuel
      · have htake : takeLine (n - 1) ((l ++ [10]) ++ lines.flatMap (· ++ [10])) =
            (l ++ [10], lines.flatMap (· ++ [10])) := by
          rw [List.append_assoc, List.singleton_append]
          exact takeLine_append _ _ hlines.1.1 (by omega)
        rw [List.flatMap_cons, fgetsLines_cons (by simp) htake,
          ih hlines.2 (Nat.le_of_succ_le_succ hfuel), List.map_cons]

def isDigit (b : BYTE) : Bool := 48 ≤ b && b ≤ 57

/-- `atoi`: white space, a sign, decimal digits; `0` when there are none. -/
def atoi (str : Bytes) : Int :=
  let body := str.dropWhile fun b => b = 32 || (9 ≤ b && b ≤ 13)
  let digits (bs : Bytes) : Int :=
    (bs.takeWhile isDigit).foldl (fun r b => r * 10 + (b.toNat - 48 : ℕ)) 0
  match body with
  | 45 :: bs => -digits bs
  | 43 :: bs => digits bs
  | bs => digits bs

/-! ## Socket tables -/

/-- One digit of `Hex2Dec`. Any other character only shifts (the source prints
a message and goes on). -/
def hex2DecStep (r : DWORD) (c : BYTE) : DWORD :=
  let r := r <<< 4
  if 48 ≤ c ∧ c ≤ 57 then r + UInt32.ofNat (c.toNat - 48)
  else if 65 ≤ c ∧ c ≤ 70 then r + UInt32.ofNat (c.toNat - 65 + 10)
  else r

/-- `Hex2Dec`: at most `nDigs` characters, fewer when the string ends. -/
def hex2Dec (str : Bytes) (nDigs : ℕ) : DWORD :=
  (cString (str.take nDigs)).foldl hex2DecStep 0

/-- `GetSocketInfo`: address and port of one `xxxx:xx` field. Of an address
only the last word is kept. A field it does not understand gives zeros. -/
def getSocketInfo (str : Bytes) : Except Halt (DWORD × ℕ) :=
  let i := str.idxOf 58
  if i = str.length ∨ (i ≠ 8 ∧ i ≠ 32) then
    .ok (0, 0)
  else
    let addr := str.take i
    let port := hex2Dec (str.drop (i + 1)) 32
    let ip := hex2Dec (addr.drop (i - 2)) 2 |||
      (hex2Dec (addr.drop (i - 4)) 2 <<< 8) |||
      (hex2Dec (addr.drop (i - 6)) 2 <<< 16) |||
      (hex2Dec (addr.drop (i - 8)) 2 <<< 24)
    -- the port is an `int`: a word with the top bit set is negative
    if port.toBitVec.toInt < 0 ∨ port.toBitVec.toInt > 65535 then
      .error (.exit "Invalid port nmber")
    else
      .ok (ip, port.toNat)

/-- The fields of a line: the maximal runs of characters above the blank. -/
def fields (line : Bytes) : List Bytes :=
  (line.splitOnP (· ≤ 32)).filter (· ≠ [])

/-- Address and port of field `j`, or the values the entry had when the line
has no such field. -/
def readEndpoint (fs : List Bytes) (j : ℕ) (old : DWORD × ℕ) : Except Halt (DWORD × ℕ) :=
  match fs[j]? with
  | none => .ok old
  | some f => getSocketInfo f

/-- The byte `++iNode2connid[h][0]` evaluates to. -/
def ConnTable.nextColumn (t : ConnTable) (h : ℕ) : BYTE := t.iNode2connid h 0 + 1

/-- `iNode2connid[h][++iNode2connid[h][0]] = nConns++`: the count and the
connection id are both cut to a byte. -/
def ConnTable.pushConn (t : ConnTable) (h : ℕ) : ConnTable :=
  let k := t.nextColumn h
  let row := Function.update (Function.update (t.iNode2connid h) 0 k) k.toNat
    (UInt8.ofNat t.nConns)
  { t with
    iNode2connid := Function.update t.iNode2connid h row
    nConns := t.nConns + 1
    nNewConns := t.nNewConns + 1 }

/-- One line of `ReadConnections`. The entry past the table is filled in as
the fields are parsed and only counted when the line has ten of them. -/
def readLine (L : Limits) (protocol : ℕ) (curSec : Int) (t : ConnTable) (line : Bytes) :
    Except Halt ConnTable :=
  if L.conns ≤ t.nConns then
    .error (.outOfBounds "conns")
  else do
    let fs := fields (cString line)
    let old := t.conns t.nConns
    let (localIP, localPort) ← readEndpoint fs 1 (old.localIP, old.localPort)
    let (remoteIP, remotePort) ← readEndpoint fs 2 (old.remoteIP, old.remotePort)
    let conn : ConnInfo :=
      { localIP, remoteIP, localPort, remotePort, protocol
        iNode := -1, pid := -1, appid := -1, tvSec := curSec }
    match fs[9]? with
    | none =>
      -- a broken line: nothing is counted
      .ok { t with conns := Function.update t.conns t.nConns conn }
    | some f =>
      let conn := { conn with iNode := UInt32.ofInt (atoi f) }
      let t := { t with conns := Function.update t.conns t.nConns conn }
      .ok (t.pushConn (inoHash conn.iNode))

/-- `ReadConnections`: the header line is skipped, every other line read. -/
def readConnections (L : Limits) (fs : ProcFs) (filename : String) (protocol : ℕ)
    (curSec : Int) (t : ConnTable) : Except Halt ConnTable :=
  match fs.netFile filename with
  | none => .ok t
  | some content =>
    (fgetsLines 4096 content.length content).tail.foldlM (readLine L protocol curSec) t

/-! ## Processes -/

/-- `"socket:["`. -/
def socketPrefix : Bytes := [115, 111, 99, 107, 101, 116, 58, 91]

/-- The connection id a byte of bucket `h` holds for `iNode`: the first column
of the bucket whose entry has that inode. -/
def ConnTable.findINode (t : ConnTable) (iNode : DWORD) : Option ℕ :=
  let h := inoHash iNode
  ((List.range (t.iNode2connid h 0).toNat).map
    fun i => (t.iNode2connid h (i + 1)).toNat).find? fun id => (t.conns id).iNode = iNode

/-- One descriptor of `ReadProcFD`: a link `socket:[<inode>]` gives the process
to the entry of that inode, unless it already has one. -/
def readFdLink (pid : Int) (t : ConnTable) (link : Bytes) : ConnTable :=
  let buf := link.take 4096
  if 9 < buf.length ∧ socketPrefix <+: buf ∧ buf.getLast? = some 93 then
    match t.findINode (UInt32.ofInt (atoi (cString (buf.dropLast.drop 8)))) with
    | none => t
    | some connID =>
      if (t.conns connID).pid = -1 then
        { t with
          conns := Function.update t.conns connID { t.conns connID with pid := pid }
          nConnsWithPID := t.nConnsWithPID + 1 }
      else t
  else t

/-- `ReadProcFD`. -/
def readProcFD (fs : ProcFs) (pid : Int) (t : ConnTable) : ConnTable :=
  match fs.fds pid with
  | none => t
  | some links => links.foldl (readFdLink pid) t

/-- `GetProcessID`: the number a directory name spells, `-1` for any other. -/
def getProcessID (str : Bytes) : Int :=
  if str.all isDigit then
    str.foldl (fun r b => r * 10 + (b.toNat - 48 : ℕ)) 0
  else -1

/-- The loop over `PIDs` (last first), left once every new entry has a process. -/
def attachFrom (fs : ProcFs) : List Int → ConnTable → ConnTable
  | [], t => t
  | pid :: pids, t =>
    let t := readProcFD fs pid t
    if t.nConnsWithPID = t.nNewConns then t else attachFrom fs pids t

/-- One entry of the directory loop of `AttachProcessInfo`. -/
def pushPid (L : Limits) (pids : List Int) (name : Bytes) : Except Halt (List Int) :=
  let pid := getProcessID name
  if pid = -1 then .ok pids
  else if L.pids ≤ pids.length then .error (.outOfBounds "PIDs")
  else .ok (pids ++ [pid])

/-- `AttachProcessInfo`. -/
def attachProcessInfo (L : Limits) (fs : ProcFs) (t : ConnTable) (p : ProcTable) :
    Except Halt (ConnTable × ProcTable) := do
  let pids ← (fs.dirents.getD []).foldlM (pushPid L) p.pids
  .ok (attachFrom fs pids.reverse t, { p with pids := pids })

/-- `GetProcName`: the name of a process, from `procs` when it was read since
the last `Init`. An empty `cmdline` leaves the name the slot held before. -/
def getProcName (L : Limits) (fs : ProcFs) (pid : Int) (p : ProcTable) :
    Except Halt (Option Bytes × ProcTable) :=
  match (List.range p.nProcs).find? fun i => (p.procs i).pid = pid with
  | some i => .ok (some (p.procs i).name, p)
  | none =>
    match fs.cmdline pid with
    | none => .ok (none, p)
    | some content =>
      if L.procs ≤ p.nProcs then
        .error (.outOfBounds "procs")
      else
        let name := match fgets 256 content with
          | none => (p.procs p.nProcs).name
          | some (line, _) => cString line
        let p := { p with procs := Function.update p.procs p.nProcs ⟨pid, name⟩ }
        if name.headD 0 < 32 then .ok (none, p)
        else .ok (some name, { p with nProcs := p.nProcs + 1 })

/-! ## Snapshots written out -/

/-- The bytes of an ASCII text. -/
def text (s : String) : Bytes := s.toList.map fun c => UInt8.ofNat c.toNat

/-- The snapshot with the given lines in the two IPv4 socket tables (under an
empty header line), where each process has a command line and the inodes of its
sockets. -/
def ProcFs.ofSockets (tcp udp : List String) (procs : List (Int × String × List String)) :
    ProcFs where
  netFile name :=
    if name = "/proc/net/tcp" then some (text (String.intercalate "\n" ("" :: tcp)))
    else if name = "/proc/net/udp" then some (text (String.intercalate "\n" ("" :: udp)))
    else none
  dirents := some (procs.map fun p => text (toString p.1))
  fds pid := (procs.find? (·.1 = pid)).map fun p =>
    p.2.2.map fun inode => text ("socket:[" ++ inode ++ "]")
  cmdline pid := (procs.find? (·.1 = pid)).map fun p => text p.2.1

/-! ## What the reading leaves alone -/

/-- What one line does to the table: nothing is counted, or one entry is
appended that has neither process nor application and is as old as the call. -/
theorem readLine_cases {L : Limits} {protocol : ℕ} {curSec : Int} {t t' : ConnTable}
    {line : Bytes} (h : readLine L protocol curSec t line = .ok t') :
    t.nConns < L.conns ∧ ∃ c : ConnInfo,
      t'.conns = Function.update t.conns t.nConns c ∧ c.protocol = protocol ∧
      c.appid = -1 ∧ c.pid = -1 ∧ c.tvSec = curSec ∧
      (t'.nConns = t.nConns ∨ t'.nConns = t.nConns + 1) := by
  unfold readLine at h
  split at h
  · cases h
  · rename_i hlt
    refine ⟨Nat.lt_of_not_le hlt, ?_⟩
    rcases Lib.except_bind_eq_ok.mp h with ⟨⟨lip, lp⟩, _, h⟩
    rcases Lib.except_bind_eq_ok.mp h with ⟨⟨rip, rp⟩, _, h⟩
    dsimp only at h
    split at h
    · cases h
      exact ⟨_, rfl, rfl, rfl, rfl, rfl, Or.inl rfl⟩
    · cases h
      exact ⟨_, rfl, rfl, rfl, rfl, rfl, Or.inr rfl⟩

/-- Reading a socket table keeps the entries within the array. -/
theorem readConnections_nConns_le {L : Limits} {fs : ProcFs} {filename : String}
    {protocol : ℕ} {curSec : Int} {t t' : ConnTable} (ht : t.nConns ≤ L.conns)
    (h : readConnections L fs filename protocol curSec t = .ok t') :
    t'.nConns ≤ L.conns := by
  unfold readConnections at h
  split at h
  · cases h
    exact ht
  · refine Lib.foldlM_preserves (P := fun t : ConnTable => t.nConns ≤ L.conns) ?_ ht h
    intro s line s' _ hline
    rcases readLine_cases hline with ⟨hlt, _, _, _, _, _, _, hn⟩
    omega

/-- Joining processes changes neither the number of entries nor, entry by
entry, anything but the process. -/
def SameButPid (t t' : ConnTable) : Prop :=
  t'.nConns = t.nConns ∧ ∀ i, t'.conns i = { t.conns i with pid := (t'.conns i).pid }

theorem SameButPid.refl (t : ConnTable) : SameButPid t t := ⟨rfl, fun _ => rfl⟩

theorem SameButPid.trans {t t' t'' : ConnTable} (h : SameButPid t t') (h' : SameButPid t' t'') :
    SameButPid t t'' := by
  refine ⟨h'.1.trans h.1, fun i => ?_⟩
  rw [h'.2 i, h.2 i]

theorem readFdLink_sameButPid (pid : Int) (t : ConnTable) (link : Bytes) :
    SameButPid t (readFdLink pid t link) := by
  unfold readFdLink
  dsimp only
  split
  · split
    · exact SameButPid.refl t
    · rename_i connID _
      split
      · refine ⟨rfl, fun i => ?_⟩
        by_cases hi : i = connID
        · subst hi
          simp
        · simp [Function.update_of_ne hi]
      · exact SameButPid.refl t
  · exact SameButPid.refl t

theorem readProcFD_sameButPid (fs : ProcFs) (pid : Int) (t : ConnTable) :
    SameButPid t (readProcFD fs pid t) := by
  unfold readProcFD
  split
  · exact SameButPid.refl t
  · rename_i links hlinks
    clear hlinks
    induction links generalizing t with
    | nil => exact SameButPid.refl t
    | cons link links ih => exact (readFdLink_sameButPid pid t link).trans (ih _)

theorem attachFrom_sameButPid (fs : ProcFs) (pids : List Int) (t : ConnTable) :
    SameButPid t (attachFrom fs pids t) := by
  induction pids generalizing t with
  | nil => exact SameButPid.refl t
  | cons pid pids ih =>
      unfold attachFrom
      dsimp only
      split
      · exact readProcFD_sameButPid fs pid t
      · exact (readProcFD_sameButPid fs pid t).trans (ih _)

theorem attachProcessInfo_sameButPid {L : Limits} {fs : ProcFs} {t t' : ConnTable}
    {p p' : ProcTable} (h : attachProcessInfo L fs t p = .ok (t', p')) :
    SameButPid t t' := by
  unfold attachProcessInfo at h
  rcases Lib.except_bind_eq_ok.mp h with ⟨pids, _, h⟩
  cases h
  exact attachFrom_sameButPid fs _ t

end MobiPerf.SocketProc
