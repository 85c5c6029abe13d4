import MobiPerf.SocketProc.Rows
import MobiPerf.SocketProc.Snapshot
import MobiPerf.SocketProc.Table

/-!
# SocketProc.Join — sockets and processes

`Init`, `ReadConnections` on the four files and `AttachProcessInfo`: which
process the entries of the table get. A `Snapshot` is a `/proc` as the kernel
shows it, `Joined` what the join is for: each new connection has the process of
a descriptor with its inode, or none where there is no such descriptor, and the
older entries keep theirs.

The connection numbers go through bytes, so an entry from number 256 on is not
found under its own number, and an older one may be found in its place.
`Joinable` says on which tables and snapshots this does no harm; it is the exact
condition for the join to succeed (`joinProcesses_joined_iff`).
-/

namespace MobiPerf.SocketProc

/-- What the join is for, from the table `t` to the table `t'`: the sockets of
the snapshot are entries behind the old ones, each with the process of one of
its descriptors or without a process, and no old entry's process has changed. -/
structure Joined (snap : Snapshot) (t t' : ConnTable) : Prop where
  nConns : t'.nConns = t.nConns + snap.iNodes.length
  iNode : ∀ k n, snap.iNodes[k]? = some n → (t'.conns (t.nConns + k)).iNode = UInt32.ofNat n
  held : ∀ k n, snap.iNodes[k]? = some n → snap.Held n →
    snap.Holds (t'.conns (t.nConns + k)).pid n
  unheld : ∀ k n, snap.iNodes[k]? = some n → ¬snap.Held n → (t'.conns (t.nConns + k)).pid = -1
  old : ∀ i < t.nConns, (t'.conns i).pid = (t.conns i).pid

/-- The first half of `UpdateProcessSocketInfo`. -/
def joinProcesses (L : Limits) (fs : ProcFs) (curSec : Int) (s : State) :
    Except Halt (ConnTable × ProcTable) := do
  let s := init s
  let t ← readAll L fs curSec s.toConnTable
  attachProcessInfo L fs t s.toProcTable

/-- The refresh starts with the join. -/
theorem updateProcessSocketInfo_join (L : Limits) (fs : ProcFs) (curSec : Int) (s : State) :
    updateProcessSocketInfo L fs curSec s = (do
      let (t, p) ← joinProcesses L fs curSec s
      let s := init s
      let (t, p, a) ← updateNames L fs (t, p, s.toAppTable)
      let t := cleanConnectionInfo curSec t
      let port2connid ← updatePort2Connid L t s.port2connid
      let ip2connid ← updateIP2Connid L t s.ip2connid
      .ok { s with
        toConnTable := t
        toProcTable := p
        toAppTable := a
        port2connid := port2connid
        ip2connid := ip2connid }) := by
  unfold updateProcessSocketInfo joinProcesses
  dsimp only
  rw [bind_assoc]

/-! ## The condition -/

/-- The numbers of the new entries whose inode falls into a row, when the first
new entry has number `first`. -/
def bucketIds (first : ℕ) (iNodes : List ℕ) (h : ℕ) : List ℕ :=
  ((iNodes.zipIdx first).filter fun p => inoHash (UInt32.ofNat p.1) = h).map (·.2)

/-- The numbers a search for an inode comes across, before they are cut to
bytes. -/
def candidates (first : ℕ) (iNodes : List ℕ) (n : ℕ) : List ℕ :=
  kept (bucketIds first iNodes (inoHash (UInt32.ofNat n)))

/-- The older entry `e` has the inode and is come across in the place of a new
one, whose number has the same low byte. -/
def Mistaken (t : ConnTable) (iNodes : List ℕ) (n e : ℕ) : Prop :=
  e < t.nConns ∧ (t.conns e).iNode = UInt32.ofNat n ∧ e + 256 ∈ candidates t.nConns iNodes n

/-- The new entry `id` of an inode is found: its number fits a byte and either
is among the candidates or is the low byte of one, and then no older entry is
met before it. -/
def Findable (t : ConnTable) (iNodes : List ℕ) (n id : ℕ) : Prop :=
  id < 256 ∧ (id ∈ candidates t.nConns iNodes n ∨
    (id + 256 ∈ candidates t.nConns iNodes n ∧ ∀ e, ¬Mistaken t iNodes n e))

/-- When the join succeeds. -/
structure Joinable (snap : Snapshot) (t : ConnTable) : Prop where
  fits : Fits t.nConns snap.lines
  pids : snap.pids.length ≤ maxPids
  new : ∀ k n, snap.iNodes[k]? = some n → snap.Held n →
    Findable t snap.iNodes n (t.nConns + k)
  /-- the first older entry a held inode is mistaken for has a process already -/
  old : ∀ n, snap.Held n → n ∉ snap.iNodes → ∀ e, Mistaken t snap.iNodes n e →
    (∀ e' < e, ¬Mistaken t snap.iNodes n e') → (t.conns e).pid ≠ -1

/-- One more inode is in its bucket. -/
theorem bucketIds_append (first : ℕ) (iNodes : List ℕ) (n h : ℕ) :
    bucketIds first (iNodes ++ [n]) h =
      if inoHash (UInt32.ofNat n) = h then bucketIds first iNodes h ++ [first + iNodes.length]
      else bucketIds first iNodes h := by
  unfold bucketIds
  rw [List.zipIdx_append, List.filter_append, List.map_append]
  split
  · rename_i hh
    simp [hh]
  · rename_i hh
    simp [hh]

/-- A bucket has the entries of its inodes. -/
theorem mem_bucketIds {first : ℕ} {iNodes : List ℕ} {h id : ℕ} :
    id ∈ bucketIds first iNodes h ↔
      ∃ k n, iNodes[k]? = some n ∧ inoHash (UInt32.ofNat n) = h ∧ id = first + k := by
  unfold bucketIds
  constructor
  · intro hid
    obtain ⟨⟨n, id'⟩, hmem, rfl⟩ := List.mem_map.mp hid
    obtain ⟨hmem, hh⟩ := List.mem_filter.mp hmem
    obtain ⟨hle, hn⟩ := List.mk_mem_zipIdx_iff_le_and_getElem?_sub.mp hmem
    exact ⟨id' - first, n, hn, of_decide_eq_true hh, by simp only; omega⟩
  · rintro ⟨k, n, hn, hh, rfl⟩
    refine List.mem_map.mpr ⟨(n, first + k), List.mem_filter.mpr ⟨?_, decide_eq_true hh⟩, rfl⟩
    apply List.mk_mem_zipIdx_iff_le_and_getElem?_sub.mpr
    exact ⟨Nat.le_add_right _ _, by rwa [Nat.add_sub_cancel_left]⟩

theorem bucketIds_pairwise (first : ℕ) (iNodes : List ℕ) (h : ℕ) :
    (bucketIds first iNodes h).Pairwise (· < ·) := by
  have hall : ((iNodes.zipIdx first).map (·.2)).Pairwise (· < ·) := by
    rw [List.zipIdx_map_snd]
    exact List.pairwise_lt_range'
  exact hall.sublist (List.filter_sublist.map _)

/-! ## Reading -/

/-- The table `t'` is `t` with the sockets of some lines read behind its
entries. -/
structure HasRead (t t' : ConnTable) (iNodes : List ℕ) : Prop where
  nConns : t'.nConns = t.nConns + iNodes.length
  nNewConns : t'.nNewConns = iNodes.length
  nConnsWithPID : t'.nConnsWithPID = 0
  old : ∀ i < t.nConns, t'.conns i = t.conns i
  new : ∀ k n, iNodes[k]? = some n →
    (t'.conns (t.nConns + k)).iNode = UInt32.ofNat n ∧ (t'.conns (t.nConns + k)).pid = -1
  rows : ∀ h, t'.rowIds h = ((bucketIds t.nConns iNodes h).foldl pushId []).map (· % 256)

/-- `Init` leaves nothing read. -/
theorem hasRead_init (s : State) : HasRead s.toConnTable (init s).toConnTable [] where
  nConns := rfl
  nNewConns := rfl
  nConnsWithPID := rfl
  old _ _ := rfl
  new k n h := by simp at h
  rows h := by simp [ConnTable.rowIds, init, bucketIds]

/-- What a line writes at `nConns` changes no entry. -/
theorem HasRead.update {t t' : ConnTable} {iNodes : List ℕ} (h : HasRead t t' iNodes)
    (c : ConnInfo) :
    HasRead t { t' with conns := Function.update t'.conns t'.nConns c } iNodes := by
  have hn := h.nConns
  refine ⟨hn, h.nNewConns, h.nConnsWithPID, ?_, ?_, h.rows⟩
  · intro i hi
    have hne : i ≠ t'.nConns := by omega
    rw [← h.old i hi]
    exact Function.update_of_ne hne _ _
  · intro k n hk
    have hlt := (List.getElem?_eq_some_iff.mp hk).1
    have hne : t.nConns + k ≠ t'.nConns := by omega
    have hnew := h.new k n hk
    rw [← Function.update_of_ne hne c t'.conns] at hnew
    exact hnew

/-- An entry that is filled in is counted by the push to its row. -/
theorem HasRead.push {t t' : ConnTable} {iNodes : List ℕ} (h : HasRead t t' iNodes) {n : ℕ}
    (hiNode : (t'.conns t'.nConns).iNode = UInt32.ofNat n) (hpid : (t'.conns t'.nConns).pid = -1) :
    HasRead t (t'.pushConn (inoHash (UInt32.ofNat n))) (iNodes ++ [n]) := by
  have hn := h.nConns
  refine ⟨?_, ?_, h.nConnsWithPID, h.old, ?_, ?_⟩
  · have hlen : (iNodes ++ [n]).length = iNodes.length + 1 := by simp
    change t'.nConns + 1 = _
    omega
  · have hlen : (iNodes ++ [n]).length = iNodes.length + 1 := by simp
    have hnew := h.nNewConns
    change t'.nNewConns + 1 = _
    omega
  · intro k m hk
    change (t'.conns (t.nConns + k)).iNode = _ ∧ (t'.conns (t.nConns + k)).pid = _
    rcases Nat.lt_or_ge k iNodes.length with hlt | hge
    · rw [List.getElem?_append_left hlt] at hk
      exact h.new k m hk
    · -- the id is the new one: it is the number of entries there were
      have hlt := (List.getElem?_eq_some_iff.mp hk).1
      have hkeq : k = iNodes.length := by
        rw [List.length_append, List.length_singleton] at hlt
        omega
      subst hkeq
      rw [List.getElem?_concat_length] at hk
      cases hk
      rw [← hn]
      exact ⟨hiNode, hpid⟩
  · intro row
    rw [bucketIds_append]
    -- the new entry stands last in its bucket, as the buckets list ids in order
    split
    · rename_i hrow
      subst hrow
      rw [ConnTable.rowIds_pushConn (h.rows _), List.foldl_append, List.foldl_cons,
        List.foldl_nil, hn]
    · rename_i hrow
      rw [ConnTable.rowIds_pushConn_of_ne (Ne.symm hrow)]
      exact h.rows row

/-- A line that is read adds its inode, if it has one. -/
theorem HasRead.line {t t₁ t₂ : ConnTable} {iNodes : List ℕ} {L : Limits} {protocol : ℕ}
    {curSec : Int} (h : HasRead t t₁ iNodes) {l : NetLine}
    (hread : readLine L protocol curSec t₁ (l.text ++ [10]) = .ok t₂) :
    HasRead t t₂ (iNodes ++ l.iNode.toList) := by
  have hroom := (readLine_cases hread).1
  cases l with
  | socket l =>
      change readLine L protocol curSec t₁ (l.text ++ [10]) = .ok t₂ at hread
      rw [readLine_socket L protocol curSec l hroom] at hread
      cases hread
      have hself : Function.update t₁.conns t₁.nConns (l.conn protocol curSec) t₁.nConns =
          l.conn protocol curSec := Function.update_self _ _ _
      exact (h.update (l.conn protocol curSec)).push (congrArg ConnInfo.iNode hself)
        (congrArg ConnInfo.pid hself)
  | broken l =>
      obtain ⟨c, hline⟩ := readLine_broken L protocol curSec l hroom
      change readLine L protocol curSec t₁ (l.text ++ [10]) = .ok t₂ at hread
      rw [hline] at hread
      cases hread
      have hnil : iNodes ++ (NetLine.broken l).iNode.toList = iNodes := List.append_nil iNodes
      rw [hnil]
      exact h.update c

/-- So do the lines of a file. -/
theorem HasRead.lines {t t₁ t₂ : ConnTable} {iNodes : List ℕ} {L : Limits} {protocol : ℕ}
    {curSec : Int} (h : HasRead t t₁ iNodes) {lines : List NetLine}
    (hread : (lines.map (·.text ++ [10])).foldlM (readLine L protocol curSec) t₁ = .ok t₂) :
    HasRead t t₂ (iNodes ++ lines.filterMap NetLine.iNode) := by
  induction lines generalizing t₁ iNodes with
  | nil =>
      cases hread
      simpa using h
  | cons l lines ih =>
      rw [List.map_cons, List.foldlM_cons] at hread
      obtain ⟨t', hline, hread⟩ := Lib.except_bind_eq_ok.mp hread
      have hrest := ih (h.line hline) hread
      rw [List.append_assoc] at hrest
      cases l with
      | socket l => exact hrest
      | broken l => exact hrest

/-- Reading a table of the snapshot is reading its lines. -/
theorem readConnections_snapshot (L : Limits) (snap : Snapshot) (name : String) (protocol : ℕ)
    (curSec : Int) (t : ConnTable) :
    readConnections L snap.procFs name protocol curSec t =
      ((snap.linesOf name).map (·.text ++ [10])).foldlM (readLine L protocol curSec) t := by
  cases hfile : snap.netFile name with
  | none => simp [readConnections, Snapshot.procFs, Snapshot.linesOf, hfile, pure, Except.pure]
  | some f =>
      have htext : snap.procFs.netFile name = some f.text := by simp [Snapshot.procFs, hfile]
      have hlines : snap.linesOf name = f.lines := by simp [Snapshot.linesOf, hfile]
      rw [readConnections_netFile f htext, hlines]

/-- Lines fit when the first of them do, and the rest behind them. -/
theorem fits_append {n : ℕ} {lines rest : List NetLine} :
    Fits n (lines ++ rest) ↔
      Fits n lines ∧ Fits (n + (lines.filterMap NetLine.iNode).length) rest := by
  induction lines generalizing n with
  | nil => simp [Fits]
  | cons l lines ih =>
      have hcount : (l :: lines).filterMap NetLine.iNode =
          l.iNode.toList ++ lines.filterMap NetLine.iNode := by cases l <;> rfl
      have hlen : l.iNode.toList.length = l.count := by cases l <;> rfl
      rw [List.cons_append, Fits, Fits, ih, hcount, List.length_append, hlen, and_assoc,
        Nat.add_assoc]

/-- What reading one file of the snapshot comes to. -/
theorem readFile_snapshot {snap : Snapshot} {name : String} {protocol : ℕ} {curSec : Int}
    {t t₁ t₂ : ConnTable} {iNodes : List ℕ} (h : HasRead t t₁ iNodes)
    (hread : readConnections srcLimits snap.procFs name protocol curSec t₁ = .ok t₂) :
    Fits (t.nConns + iNodes.length) (snap.linesOf name) ∧
      HasRead t t₂ (iNodes ++ (snap.linesOf name).filterMap NetLine.iNode) := by
  rw [readConnections_snapshot] at hread
  rw [← h.nConns]
  exact ⟨fits_of_readLines hread, h.lines hread⟩

/-- A file whose lines fit is read. -/
theorem readFile_of_fits {snap : Snapshot} {name : String} (protocol : ℕ) (curSec : Int)
    {t t₁ : ConnTable} {iNodes : List ℕ} (h : HasRead t t₁ iNodes)
    (hfits : Fits (t.nConns + iNodes.length) (snap.linesOf name)) :
    ∃ t₂, readConnections srcLimits snap.procFs name protocol curSec t₁ = .ok t₂ := by
  rw [← h.nConns] at hfits
  obtain ⟨t₂, hread, _⟩ := readLines_of_fits protocol curSec hfits
  exact ⟨t₂, by rw [readConnections_snapshot]; exact hread⟩

/-- The four files are read when each line is met with room left, and then all
sockets are entries. -/
theorem readAll_snapshot (snap : Snapshot) (curSec : Int) {t t₀ : ConnTable}
    (h : HasRead t t₀ []) :
    (Fits t.nConns snap.lines → ∃ t', readAll srcLimits snap.procFs curSec t₀ = .ok t') ∧
      ∀ t', readAll srcLimits snap.procFs curSec t₀ = .ok t' →
        Fits t.nConns snap.lines ∧ HasRead t t' snap.iNodes := by
  have hiNodes : snap.iNodes = ((([] ++ (snap.linesOf "/proc/net/tcp").filterMap NetLine.iNode) ++
      (snap.linesOf "/proc/net/tcp6").filterMap NetLine.iNode) ++
      (snap.linesOf "/proc/net/udp").filterMap NetLine.iNode) ++
      (snap.linesOf "/proc/net/udp6").filterMap NetLine.iNode := by
    simp [Snapshot.iNodes, Snapshot.lines]
  -- the four files are read one after the other into one table
  constructor
  · intro hfits
    simp only [Snapshot.lines, fits_append, List.filterMap_append] at hfits
    obtain ⟨⟨⟨htcp, htcp6⟩, hudp⟩, hudp6⟩ := hfits
    obtain ⟨t₁, hread₁⟩ := readFile_of_fits protTcp curSec h htcp
    have h₁ := (readFile_snapshot h hread₁).2
    obtain ⟨t₂, hread₂⟩ := readFile_of_fits protTcp curSec h₁ htcp6
    have h₂ := (readFile_snapshot h₁ hread₂).2
    obtain ⟨t₃, hread₃⟩ := readFile_of_fits protUdp curSec h₂ hudp
    have h₃ := (readFile_snapshot h₂ hread₃).2
    obtain ⟨t₄, hread₄⟩ := readFile_of_fits protUdp curSec h₃ hudp6
    refine ⟨t₄, ?_⟩
    rw [readAll, hread₁]
    change (readConnections _ _ _ _ _ t₁ >>= _) = _
    rw [hread₂]
    change (readConnections _ _ _ _ _ t₂ >>= _) = _
    rw [hread₃]
    exact hread₄
  · intro t' hread
    unfold readAll at hread
    obtain ⟨t₁, hread₁, hread⟩ := Lib.except_bind_eq_ok.mp hread
    obtain ⟨t₂, hread₂, hread⟩ := Lib.except_bind_eq_ok.mp hread
    obtain ⟨t₃, hread₃, hread₄⟩ := Lib.except_bind_eq_ok.mp hread
    obtain ⟨htcp, h₁⟩ := readFile_snapshot h hread₁
    obtain ⟨htcp6, h₂⟩ := readFile_snapshot h₁ hread₂
    obtain ⟨hudp, h₃⟩ := readFile_snapshot h₂ hread₃
    obtain ⟨hudp6, h₄⟩ := readFile_snapshot h₃ hread₄
    rw [hiNodes]
    refine ⟨?_, h₄⟩
    simp only [Snapshot.lines, fits_append, List.filterMap_append]
    exact ⟨⟨⟨htcp, htcp6⟩, hudp⟩, hudp6⟩

/-! ## Searching -/

/-- The first hit of a search through the images of an increasing list is that
of the least number that is one. -/
theorem find?_map_eq_some_iff {ids : List ℕ} (hord : ids.Pairwise (· < ·)) {f : ℕ → ℕ}
    {p : ℕ → Bool} {c : ℕ} :
    (ids.map f).find? p = some c ↔
      ∃ m ∈ ids, f m = c ∧ p c ∧ ∀ m' ∈ ids, m' < m → ¬p (f m') := by
  induction ids with
  | nil => simp
  | cons id ids ih =>
      obtain ⟨hid, hord'⟩ := List.pairwise_cons.mp hord
      rw [List.map_cons, List.find?_cons]
      -- ids increase, so the head of the list is below everything else in it
      cases hp : p (f id) with
      | true =>
          constructor
          · intro h
            cases h
            refine ⟨id, List.mem_cons_self, rfl, hp, fun m' hm' hlt => ?_⟩
            rcases List.mem_cons.mp hm' with rfl | hm'
            · exact absurd hlt (Nat.lt_irrefl _)
            · exact absurd hlt (Nat.not_lt.mpr (Nat.le_of_lt (hid m' hm')))
          · rintro ⟨m, hm, rfl, _, hfirst⟩
            rcases List.mem_cons.mp hm with rfl | hm
            · rfl
            · exact absurd hp (hfirst id List.mem_cons_self (hid m hm))
      | false =>
          dsimp only
          rw [ih hord']
          constructor
          · rintro ⟨m, hm, hc, hpc, hfirst⟩
            refine ⟨m, List.mem_cons_of_mem _ hm, hc, hpc, fun m' hm' hlt => ?_⟩
            rcases List.mem_cons.mp hm' with rfl | hm'
            · simp [hp]
            · exact hfirst m' hm' hlt
          · rintro ⟨m, hm, hc, hpc, hfirst⟩
            rcases List.mem_cons.mp hm with rfl | hm
            · rw [hc, hpc] at hp
              cases hp
            · exact ⟨m, hm, hc, hpc, fun m' hm' => hfirst m' (List.mem_cons_of_mem _ hm')⟩

/-- Inodes of 31 bits do not wrap. -/
theorem ofNat_inj {n m : ℕ} (hn : n < 2 ^ 31) (hm : m < 2 ^ 31)
    (h : UInt32.ofNat n = UInt32.ofNat m) : n = m := by
  have h := congrArg UInt32.toNat h
  rw [UInt32.toNat_ofNat', UInt32.toNat_ofNat'] at h
  omega

/-- The inodes of a snapshot are such. -/
theorem Snapshot.iNodes_lt {snap : Snapshot} {n : ℕ} (h : n ∈ snap.iNodes) : n < 2 ^ 31 := by
  obtain ⟨l, _, hl⟩ := List.mem_filterMap.mp h
  cases l with
  | socket l =>
      cases hl
      exact l.iNode_lt
  | broken l => cases hl

/-- A candidate is the number of a new entry. -/
theorem candidate_bounds {first n m : ℕ} {iNodes : List ℕ} (hm : m ∈ candidates first iNodes n) :
    first ≤ m ∧ m < first + iNodes.length := by
  obtain ⟨k, _, hk, _, rfl⟩ := mem_bucketIds.mp ((kept_sublist _).subset hm)
  have hlt := (List.getElem?_eq_some_iff.mp hk).1
  omega

section Search

variable {snap : Snapshot} {t t' : ConnTable}

/-- The entry behind a number is an old one or a new one of some inode. -/
theorem HasRead.entry_cases (hread : HasRead t t' snap.iNodes) {c : ℕ}
    (hc : c < t.nConns + snap.iNodes.length) :
    (c < t.nConns ∧ t'.conns c = t.conns c) ∨
      ∃ k n, c = t.nConns + k ∧ snap.iNodes[k]? = some n ∧
        (t'.conns c).iNode = UInt32.ofNat n := by
  rcases Nat.lt_or_ge c t.nConns with hlt | hge
  · exact Or.inl ⟨hlt, hread.old c hlt⟩
  · have hk : c - t.nConns < snap.iNodes.length := by omega
    have hget := List.getElem?_eq_getElem hk
    have hceq : c = t.nConns + (c - t.nConns) := by omega
    refine Or.inr ⟨_, _, hceq, hget, ?_⟩
    have hnew := (hread.new _ _ hget).1
    rwa [← hceq] at hnew

variable (hread : HasRead t t' snap.iNodes)
  (hroom : t.nConns + snap.iNodes.length ≤ maxConns)
include hread hroom

/-- What `ReadProcFD` finds for an inode: the low byte of the first candidate
for which this is an entry of the inode. -/
theorem findINode_eq_some_iff {n c : ℕ} :
    t'.findINode (UInt32.ofNat n) = some c ↔
      ∃ m ∈ candidates t.nConns snap.iNodes n, m % 256 = c ∧
        (t'.conns c).iNode = UInt32.ofNat n ∧
        ∀ m' ∈ candidates t.nConns snap.iNodes n, m' < m →
          (t'.conns (m' % 256)).iNode ≠ UInt32.ofNat n := by
  have hord := bucketIds_pairwise t.nConns snap.iNodes (inoHash (UInt32.ofNat n))
  have hlt : ∀ id ∈ bucketIds t.nConns snap.iNodes (inoHash (UInt32.ofNat n)), id < 512 := by
    intro id hid
    obtain ⟨k, _, hk, _, rfl⟩ := mem_bucketIds.mp hid
    have hk := (List.getElem?_eq_some_iff.mp hk).1
    unfold maxConns at hroom
    omega
  rw [ConnTable.findINode_eq, hread.rows, foldl_pushId hord hlt,
    find?_map_eq_some_iff (hord.sublist (kept_sublist _))]
  simp [candidates]

/-- An old entry is only met with its inode where it is mistaken for a new
one. -/
theorem mistaken_of_candidate {n m : ℕ} (hm : m ∈ candidates t.nConns snap.iNodes n)
    (hold : m % 256 < t.nConns) (hn : (t'.conns (m % 256)).iNode = UInt32.ofNat n) :
    m = m % 256 + 256 ∧ Mistaken t snap.iNodes n (m % 256) := by
  have hb := candidate_bounds hm
  unfold maxConns at hroom
  have hm256 : m = m % 256 + 256 := by omega
  refine ⟨hm256, hold, ?_, ?_⟩
  · rw [← hread.old _ hold]
    exact hn
  · rwa [← hm256]

/-- A new entry of a nonzero inode is found exactly where it is findable. -/
theorem findINode_new_iff (hdistinct : snap.Distinct) {k n : ℕ} (hk : snap.iNodes[k]? = some n)
    (hn : n ≠ 0) :
    t'.findINode (UInt32.ofNat n) = some (t.nConns + k) ↔
      Findable t snap.iNodes n (t.nConns + k) := by
  have hklt := (List.getElem?_eq_some_iff.mp hk).1
  have hiNode := (hread.new k n hk).1
  have hnlt := Snapshot.iNodes_lt (List.mem_of_getElem? hk)
  have hmax : maxConns = 512 := rfl
  -- no other new entry has the inode
  have honly {c : ℕ} (hc : c < t.nConns + snap.iNodes.length) (hge : t.nConns ≤ c)
      (hcn : (t'.conns c).iNode = UInt32.ofNat n) : c = t.nConns + k := by
    rcases hread.entry_cases hc with ⟨hlt, _⟩ | ⟨k', n', rfl, hk', hn'⟩
    · omega
    · have hnn : n' = n :=
        ofNat_inj (Snapshot.iNodes_lt (List.mem_of_getElem? hk')) hnlt (hn'.symm.trans hcn)
      subst hnn
      rw [hdistinct n' k' k hn hk' hk]
  rw [findINode_eq_some_iff hread hroom]
  constructor
  · rintro ⟨m, hm, hmod, _, hfirst⟩
    have hb := candidate_bounds hm
    refine ⟨by omega, ?_⟩
    by_cases hmem : t.nConns + k ∈ candidates t.nConns snap.iNodes n
    · exact Or.inl hmem
    · right
      have hm256 : m = t.nConns + k + 256 := by
        rcases Nat.lt_or_ge m 256 with hlt | hge
        · rw [Nat.mod_eq_of_lt hlt] at hmod
          exact absurd (hmod ▸ hm) hmem
        · omega
      rw [← hm256]
      refine ⟨hm, fun e he => ?_⟩
      -- an older entry would have been met first
      have he256 := candidate_bounds he.2.2
      have hlow : (e + 256) % 256 = e := by omega
      have hne := hfirst (e + 256) he.2.2 (by have := he.1; omega)
      rw [hlow, hread.old e he.1] at hne
      exact hne he.2.1
  · rintro ⟨hbyte, hfind⟩
    by_cases hmem : t.nConns + k ∈ candidates t.nConns snap.iNodes n
    · refine ⟨_, hmem, Nat.mod_eq_of_lt hbyte, hiNode, fun m' hm' hlt hm'n => ?_⟩
      have hb := candidate_bounds hm'
      rw [Nat.mod_eq_of_lt (by omega)] at hm'n
      have heq := honly hb.2 hb.1 hm'n
      omega
    · rcases hfind with hmem' | ⟨hmem', hnone⟩
      · exact absurd hmem' hmem
      · refine ⟨_, hmem', by omega, hiNode, fun m' hm' hlt hm'n => ?_⟩
        have hb := candidate_bounds hm'
        rcases Nat.lt_or_ge (m' % 256) t.nConns with hold | hge
        · exact hnone _ (mistaken_of_candidate hread hroom hm' hold hm'n).2
        · have heq := honly (by omega) hge hm'n
          have hm'eq : m' = t.nConns + k := by omega
          exact hmem (hm'eq ▸ hm')

/-- For an inode that is in none of the files the search finds the first old
entry that is mistaken for a new one. -/
theorem findINode_old_iff {n e : ℕ} (hnlt : n < 2 ^ 31) (hn : n ∉ snap.iNodes) :
    t'.findINode (UInt32.ofNat n) = some e ↔
      Mistaken t snap.iNodes n e ∧ ∀ e' < e, ¬Mistaken t snap.iNodes n e' := by
  have hmax : maxConns = 512 := rfl
  -- every entry with this inode is an old one
  have hold {c : ℕ} (hc : c < t.nConns + snap.iNodes.length)
      (hcn : (t'.conns c).iNode = UInt32.ofNat n) : c < t.nConns := by
    rcases hread.entry_cases hc with ⟨hlt, _⟩ | ⟨k', n', _, hk', hn'⟩
    · exact hlt
    · have hmem := List.mem_of_getElem? hk'
      have hnn : n' = n := ofNat_inj (Snapshot.iNodes_lt hmem) hnlt (hn'.symm.trans hcn)
      exact absurd (hnn ▸ hmem) hn
  have hlow {c : ℕ} (hc : Mistaken t snap.iNodes n c) :
      (c + 256) % 256 = c ∧ (t'.conns c).iNode = UInt32.ofNat n := by
    have hb := candidate_bounds hc.2.2
    refine ⟨by omega, ?_⟩
    rw [hread.old c hc.1]
    exact hc.2.1
  rw [findINode_eq_some_iff hread hroom]
  constructor
  · rintro ⟨m, hm, rfl, hmn, hfirst⟩
    have hb := candidate_bounds hm
    have hlt := hold (by omega) hmn
    obtain ⟨hm256, hmist⟩ := mistaken_of_candidate hread hroom hm hlt hmn
    refine ⟨hmist, fun e' he' hmist' => ?_⟩
    obtain ⟨hlow', hn'⟩ := hlow hmist'
    have hne := hfirst _ hmist'.2.2 (by omega)
    rw [hlow'] at hne
    exact hne hn'
  · rintro ⟨hmist, hfirst⟩
    obtain ⟨hlow', hn'⟩ := hlow hmist
    refine ⟨_, hmist.2.2, hlow', hn', fun m' hm' hlt hm'n => ?_⟩
    have hb := candidate_bounds hm'
    have hlt' := hold (by omega) hm'n
    obtain ⟨hm256, hmist'⟩ := mistaken_of_candidate hread hroom hm' hlt' hm'n
    exact hfirst _ (by omega) hmist'

end Search

/-! ## The join -/

/-- The join goes over all processes when they fit. -/
theorem attachProcessInfo_snapshot (snap : Snapshot) (t : ConnTable) {p : ProcTable}
    (hp : p.pids = []) :
    attachProcessInfo srcLimits snap.procFs t p =
      if snap.pids.length ≤ maxPids then
        .ok (attachFrom snap.procFs snap.pids.reverse t, { p with pids := snap.pids })
      else .error (.outOfBounds "PIDs") := by
  unfold attachProcessInfo
  rw [hp, pushPid_foldlM srcLimits _ (Nat.zero_le _), List.nil_append]
  change (if snap.pids.length ≤ maxPids then _ else _) >>= _ = _
  split
  · rfl
  · rfl

/-- When the loop is left early and only new entries got a process, all did. -/
theorem Attached.all_changed {snap : Snapshot} {t t₁ t' : ConnTable}
    (hread : HasRead t t₁ snap.iNodes) (ha : Attached snap t₁ t')
    (hdone : t'.nConnsWithPID = t'.nNewConns)
    (hnew : ∀ c, (t'.conns c).pid ≠ (t₁.conns c).pid →
      t.nConns ≤ c ∧ c < t.nConns + snap.iNodes.length) {c : ℕ}
    (hc : t.nConns ≤ c ∧ c < t.nConns + snap.iNodes.length) :
    (t'.conns c).pid ≠ (t₁.conns c).pid := by
  obtain ⟨hit, hnodup, hcount, hchanged⟩ := ha.counted
  have hlen : hit.length = snap.iNodes.length := by
    rw [ha.nNewConns, hread.nNewConns, hcount, hread.nConnsWithPID] at hdone
    omega
  have hsub : hit ⊆ List.range' t.nConns snap.iNodes.length := by
    intro c hc
    rw [List.mem_range'_1]
    exact hnew c (hchanged c hc)
  have hperm := (hnodup.subperm hsub).perm_of_length_le (by simp [hlen])
  apply hchanged
  rw [hperm.mem_iff, List.mem_range'_1]
  exact hc

section Run

variable {snap : Snapshot} {t t₁ t' : ConnTable} (hread : HasRead t t₁ snap.iNodes)
  (hroom : t.nConns + snap.iNodes.length ≤ maxConns)
  (hdistinct : snap.Distinct) (hzero : ¬snap.Held 0)
include hread hroom hdistinct hzero

/-- Attaching processes achieves the join where every search ends at the right
entry. -/
theorem joined_of_joinable (hnew : ∀ k n, snap.iNodes[k]? = some n → snap.Held n →
      Findable t snap.iNodes n (t.nConns + k))
    (hold : ∀ n, snap.Held n → n ∉ snap.iNodes → ∀ e, Mistaken t snap.iNodes n e →
      (∀ e' < e, ¬Mistaken t snap.iNodes n e') → (t.conns e).pid ≠ -1)
    (ha : Attached snap t₁ t')
    (hend : (∀ pid ∈ snap.pids, Settled snap t' pid) ∨ t'.nConnsWithPID = t'.nNewConns) :
    Joined snap t t' := by
  have hne {n : ℕ} (hn : snap.Held n) : n ≠ 0 := fun h => hzero (h ▸ hn)
  have hfind {k n : ℕ} (hk : snap.iNodes[k]? = some n) (hn : snap.Held n) :
      t₁.findINode (UInt32.ofNat n) = some (t.nConns + k) :=
    (findINode_new_iff hread hroom hdistinct hk (hne hn)).mpr (hnew k n hk hn)
  -- an entry that gets a process is the new one of the descriptor's inode
  have hhit {c : ℕ} (hc : (t'.conns c).pid ≠ (t₁.conns c).pid) :
      ∃ k n, c = t.nConns + k ∧ snap.iNodes[k]? = some n ∧ snap.Holds (t'.conns c).pid n := by
    obtain ⟨hnone, n, hholds, hcn⟩ := ha.sound c hc
    by_cases hmem : n ∈ snap.iNodes
    · obtain ⟨k, hk⟩ := List.mem_iff_getElem?.mp hmem
      rw [hfind hk ⟨_, hholds⟩] at hcn
      cases hcn
      exact ⟨k, n, rfl, hk, hholds⟩
    · obtain ⟨hmist, hfirst⟩ := (findINode_old_iff hread hroom hholds.lt hmem).mp hcn
      rw [hread.old c hmist.1] at hnone
      exact absurd hnone (hold n ⟨_, hholds⟩ hmem c hmist hfirst)
  have hlt {k n : ℕ} (hk : snap.iNodes[k]? = some n) : k < snap.iNodes.length :=
    (List.getElem?_eq_some_iff.mp hk).1
  -- a held new entry is hit, whether or not the loop was left early
  have hset {k n : ℕ} (hk : snap.iNodes[k]? = some n) (hn : snap.Held n) :
      (t'.conns (t.nConns + k)).pid ≠ (t₁.conns (t.nConns + k)).pid := by
    rw [(hread.new k n hk).2]
    rcases hend with hall | hdone
    · obtain ⟨pid, hholds⟩ := hn
      refine hall pid hholds.1 n hholds _ ?_
      rw [ha.findINode_eq]
      exact hfind hk ⟨pid, hholds⟩
    · rw [← (hread.new k n hk).2]
      refine ha.all_changed hread hdone (fun c hc => ?_) ?_
      · obtain ⟨k', n', rfl, hk', _⟩ := hhit hc
        have hk' := hlt hk'
        omega
      · have hk := hlt hk
        omega
  have hsame {k n : ℕ} (hk : snap.iNodes[k]? = some n)
      (hc : (t'.conns (t.nConns + k)).pid ≠ (t₁.conns (t.nConns + k)).pid) :
      snap.Holds (t'.conns (t.nConns + k)).pid n := by
    obtain ⟨k', n', heq, hk', hholds⟩ := hhit hc
    have hkk : k = k' := by omega
    subst hkk
    rw [hk] at hk'
    cases hk'
    exact hholds
  refine ⟨ha.same.1.trans hread.nConns, ?_, ?_, ?_, ?_⟩
  · intro k n hk
    rw [ha.same.2 (t.nConns + k)]
    exact (hread.new k n hk).1
  · intro k n hk hn
    exact hsame hk (hset hk hn)
  · intro k n hk hn
    by_contra hc
    rw [← (hread.new k n hk).2] at hc
    exact hn ⟨_, hsame hk hc⟩
  · intro i hi
    rw [← hread.old i hi]
    by_contra hc
    obtain ⟨k, _, heq, _, _⟩ := hhit hc
    omega

/-- Where the join succeeds every search for a held inode ended at the right
entry. -/
theorem joinable_of_joined (hfits : Fits t.nConns snap.lines) (hpids : snap.pids.length ≤ maxPids)
    (ha : Attached snap t₁ t')
    (hend : (∀ pid ∈ snap.pids, Settled snap t' pid) ∨ t'.nConnsWithPID = t'.nNewConns)
    (hj : Joined snap t t') : Joinable snap t := by
  have hne {n : ℕ} (hn : snap.Held n) : n ≠ 0 := fun h => hzero (h ▸ hn)
  have hfind {k n : ℕ} (hk : snap.iNodes[k]? = some n) (hn : snap.Held n) :
      t₁.findINode (UInt32.ofNat n) = some (t.nConns + k) := by
    have hholds := hj.held k n hk hn
    have hnew := hread.new k n hk
    have hc : (t'.conns (t.nConns + k)).pid ≠ (t₁.conns (t.nConns + k)).pid := by
      rw [hnew.2]
      exact hholds.pid_ne
    obtain ⟨_, n', hholds', hfind⟩ := ha.sound _ hc
    have hn' : (t₁.conns (t.nConns + k)).iNode = UInt32.ofNat n' := by
      obtain ⟨_, _, _, hn', _⟩ := (findINode_eq_some_iff hread hroom).mp hfind
      exact hn'
    have hnn : n' = n := ofNat_inj hholds'.lt hholds.lt (hn'.symm.trans hnew.1)
    rwa [hnn] at hfind
  refine ⟨hfits, hpids, ?_, ?_⟩
  · intro k n hk hn
    exact (findINode_new_iff hread hroom hdistinct hk (hne hn)).mp (hfind hk hn)
  · rintro n ⟨pid, hholds⟩ hmem e hmist hfirst hnone
    have hcn := (findINode_old_iff hread hroom hholds.lt hmem).mpr ⟨hmist, hfirst⟩
    have hkeep : (t'.conns e).pid = -1 := by rw [hj.old e hmist.1, hnone]
    rcases hend with hall | hdone
    · -- the old entry would have got the process
      exact hall pid hholds.1 n hholds e (by rw [ha.findINode_eq]; exact hcn) hkeep
    · -- the new entry it is mistaken for never gets one, so the loop is not left early
      obtain ⟨k, m, hk, _, heq⟩ := mem_bucketIds.mp ((kept_sublist _).subset hmist.2.2)
      have hk := (List.getElem?_eq_some_iff.mp hk).1
      have hchanged := ha.all_changed hread hdone (fun c hc => ?_)
        (c := e + 256) (by omega)
      · obtain ⟨_, n', _, hcn'⟩ := ha.sound _ hchanged
        obtain ⟨m', hm', hmod, _⟩ := (findINode_eq_some_iff hread hroom).mp hcn'
        omega
      · obtain ⟨_, n', _, hcn'⟩ := ha.sound c hc
        obtain ⟨m', hm', hmod, _⟩ := (findINode_eq_some_iff hread hroom).mp hcn'
        have hb := candidate_bounds hm'
        refine ⟨?_, by omega⟩
        by_contra hlt
        rw [hread.old c (by omega)] at hc
        exact hc (hj.old c (by omega))

end Run

/-- A table of less than 256 entries is joinable. -/
theorem joinable_of_lt {snap : Snapshot} {t : ConnTable} (hfits : Fits t.nConns snap.lines)
    (hpids : snap.pids.length ≤ maxPids) (hsmall : t.nConns + snap.iNodes.length < 256) :
    Joinable snap t := by
  have hnone (n e : ℕ) : ¬Mistaken t snap.iNodes n e := by
    intro he
    have hb := candidate_bounds he.2.2
    omega
  refine ⟨hfits, hpids, ?_, fun n _ _ e he => absurd he (hnone n e)⟩
  intro k n hk _
  have hlt := (List.getElem?_eq_some_iff.mp hk).1
  have hmem : t.nConns + k ∈ bucketIds t.nConns snap.iNodes (inoHash (UInt32.ofNat n)) :=
    mem_bucketIds.mpr ⟨k, n, hk, rfl, rfl⟩
  have hlen : (bucketIds t.nConns snap.iNodes (inoHash (UInt32.ofNat n))).length ≤ 255 := by
    unfold bucketIds
    rw [List.length_map]
    have hle := List.length_filter_le
      (fun p : ℕ × ℕ => decide (inoHash (UInt32.ofNat p.1) = inoHash (UInt32.ofNat n)))
      (snap.iNodes.zipIdx t.nConns)
    rw [List.length_zipIdx] at hle
    omega
  refine ⟨by omega, Or.inl ?_⟩
  rw [candidates, kept_of_length_le hlen]
  exact hmem

/-- The join succeeds, on a snapshot whose sockets have distinct inodes and a
table with room for all of them, if and only if it is joinable: every line is
read with room left, `PIDs` holds all processes, every held new entry is findable
through the bytes of its row, and no older entry without process is found in
place of one. -/
theorem joinProcesses_joined_iff (snap : Snapshot) (curSec : Int) (s : State)
    (hdistinct : snap.Distinct) (hzero : ¬snap.Held 0)
    (hroom : s.nConns + snap.iNodes.length ≤ maxConns) :
    (∃ t' p', joinProcesses srcLimits snap.procFs curSec s = .ok (t', p') ∧
      Joined snap s.toConnTable t') ↔ Joinable snap s.toConnTable := by
  obtain ⟨hstart, hstop⟩ := readAll_snapshot snap curSec (hasRead_init s)
  have hrev : ∀ pid ∈ snap.pids.reverse, pid ∈ snap.pids := fun pid h => List.mem_reverse.mp h
  constructor
  · rintro ⟨t', p', hrun, hj⟩
    -- a run that ended has read the four files and all the processes
    unfold joinProcesses at hrun
    obtain ⟨t₁, hall, hrun⟩ := Lib.except_bind_eq_ok.mp hrun
    obtain ⟨hfits, hread⟩ := hstop t₁ hall
    rw [attachProcessInfo_snapshot snap t₁ rfl] at hrun
    split at hrun
    · rename_i hpids
      cases hrun
      obtain ⟨ha, hend⟩ := attachFrom_attached hrev t₁
      simp only [List.mem_reverse] at hend
      exact joinable_of_joined hread hroom hdistinct hzero hfits hpids ha hend hj
    · cases hrun
  · intro hjoin
    -- the files fit, so the run comes to its end
    obtain ⟨t₁, hall⟩ := hstart hjoin.fits
    obtain ⟨_, hread⟩ := hstop t₁ hall
    obtain ⟨ha, hend⟩ := attachFrom_attached hrev t₁
    simp only [List.mem_reverse] at hend
    refine ⟨_, { (init s).toProcTable with pids := snap.pids }, ?_,
      joined_of_joinable hread hroom hdistinct hzero hjoin.new hjoin.old ha hend⟩
    unfold joinProcesses
    dsimp only
    rw [hall]
    change attachProcessInfo srcLimits snap.procFs t₁ (init s).toProcTable = _
    rw [attachProcessInfo_snapshot snap t₁ rfl, if_pos hjoin.pids]

/-- One process, 100, with the socket of `listenLine` and a pipe. -/
def Snapshot.listening : Snapshot where
  netFile name := if name = "/proc/net/tcp" then some (.ofLines [.socket listenLine]) else none
  dirents := some [text "self", text "100"]
  fds pid := if pid = 100 then
    some [.other (text "pipe:[77]") (by decide +kernel), .socket 2234 listenLine.iNode_lt] else none
  cmdline _ := none

/-- The one inode that is held. -/
theorem Snapshot.held_listening {n : ℕ} (h : Snapshot.listening.Held n) : n = 2234 := by
  obtain ⟨pid, _, links, hlinks, hn, hmem⟩ := h
  unfold Snapshot.listening at hlinks
  dsimp only at hlinks
  split at hlinks
  · cases hlinks
    rcases List.mem_cons.mp hmem with hmem | hmem
    · cases hmem
    · cases List.mem_singleton.mp hmem
      rfl
  · cases hlinks

theorem Snapshot.distinct_listening : Snapshot.listening.Distinct := by
  intro n k k' _ hk hk'
  have h := (List.getElem?_eq_some_iff.mp hk).1
  have h' := (List.getElem?_eq_some_iff.mp hk').1
  have hlen : Snapshot.listening.iNodes.length = 1 := rfl
  omega

theorem joinProcesses_joined_listening :
    ∃ t' p', joinProcesses srcLimits Snapshot.listening.procFs 100 State.zero = .ok (t', p') ∧
      Joined Snapshot.listening State.zero.toConnTable t' :=
  (joinProcesses_joined_iff Snapshot.listening 100 State.zero Snapshot.distinct_listening
    (fun h => absurd (Snapshot.held_listening h) (by decide)) (by decide)).mpr
    (joinable_of_lt ⟨by decide, trivial⟩ (by decide +kernel) (by decide))

/-- With 256 older entries the new entry's number does not fit a byte. -/
theorem joinProcesses_beyond_byte :
    ¬∀ (snap : Snapshot) (curSec : Int) (s : State), snap.Distinct → ¬snap.Held 0 →
      s.nConns + snap.iNodes.length ≤ maxConns →
      ∃ t' p', joinProcesses srcLimits snap.procFs curSec s = .ok (t', p') ∧
        Joined snap s.toConnTable t' := by
  intro h
  obtain ⟨t', p', hrun, hj⟩ := h Snapshot.listening 100 { State.zero with nConns := 256 }
    Snapshot.distinct_listening (fun h => absurd (Snapshot.held_listening h) (by decide))
    (by decide)
  have hholds : Snapshot.listening.Holds 100 2234 := by
    refine ⟨by decide +kernel, _, rfl, by decide, by simp⟩
  have hpid : (joinProcesses srcLimits Snapshot.listening.procFs 100
      { State.zero with nConns := 256 }).toOption.all fun r => (r.1.conns 256).pid = -1 := by
    decide +kernel
  rw [hrun] at hpid
  have hnone : (t'.conns 256).pid = -1 := of_decide_eq_true hpid
  have hheld := hj.held 0 2234 rfl ⟨100, hholds⟩
  exact hheld.pid_ne hnone

end MobiPerf.SocketProc
