import Mathlib.Data.List.Nodup
import MobiPerf.SocketProc.NetFormat

/-!
# SocketProc.Snapshot — processes and their descriptors

A `Snapshot` is a `/proc` as the kernel shows it: socket tables in the kernel's
format and, for each process, the links of its descriptors.

`Attached` is what joining processes can do to a table, whatever the rows hold:
only an entry without process gets one, and that of a process with a descriptor
whose inode the search leads to this entry; `nConnsWithPID` counts these
entries. It is kept by a single link (`readFdLink_attached`) and composes, so
it holds of the whole loop (`attachFrom_attached`).
-/

namespace MobiPerf.SocketProc

/-! ## Snapshots -/

/-- The link of a descriptor: a socket, named by its inode, or any other file. -/
inductive FdLink where
  | socket (iNode : ℕ) (h : iNode < 2 ^ 31)
  | other (path : Bytes) (h : ¬socketPrefix <+: path)

def FdLink.text : FdLink → Bytes
  | .socket iNode _ => socketPrefix ++ decimal iNode ++ [93]
  | .other path _ => path

/-- The inode of a complete line. -/
def NetLine.iNode : NetLine → Option ℕ
  | .socket l => some l.iNode
  | .broken _ => none

/-- `/proc` as the kernel shows it. -/
structure Snapshot where
  netFile : String → Option NetFile
  dirents : Option (List Bytes)
  fds : Int → Option (List FdLink)
  cmdline : Int → Option Bytes

namespace Snapshot

variable (snap : Snapshot)

/-- The bytes that are read. -/
def procFs : ProcFs where
  netFile name := (snap.netFile name).map NetFile.text
  dirents := snap.dirents
  fds pid := (snap.fds pid).map (·.map FdLink.text)
  cmdline := snap.cmdline

/-- The lines of one socket table. -/
def linesOf (name : String) : List NetLine := ((snap.netFile name).map NetFile.lines).getD []

/-- The lines of the four tables, in the order they are read. -/
def lines : List NetLine :=
  snap.linesOf "/proc/net/tcp" ++ snap.linesOf "/proc/net/tcp6" ++
    snap.linesOf "/proc/net/udp" ++ snap.linesOf "/proc/net/udp6"

/-- The inodes of the sockets, in the order of their lines. -/
def iNodes : List ℕ := snap.lines.filterMap NetLine.iNode

/-- The processes, in the order of their directories. -/
def pids : List Int := ((snap.dirents.getD []).map getProcessID).filter (· ≠ -1)

/-- The process has a descriptor of the socket. -/
def Holds (pid : Int) (iNode : ℕ) : Prop :=
  pid ∈ snap.pids ∧ ∃ links, snap.fds pid = some links ∧ ∃ h, FdLink.socket iNode h ∈ links

/-- Some process has. -/
def Held (iNode : ℕ) : Prop := ∃ pid, snap.Holds pid iNode

/-- No two sockets have the same inode, zero apart. -/
def Distinct : Prop :=
  ∀ n k k' : ℕ, n ≠ 0 → snap.iNodes[k]? = some n → snap.iNodes[k']? = some n → k = k'

end Snapshot

theorem Snapshot.Holds.lt {snap : Snapshot} {pid : Int} {n : ℕ} (h : snap.Holds pid n) :
    n < 2 ^ 31 := by
  obtain ⟨_, _, _, hlt, _⟩ := h
  exact hlt

theorem Snapshot.Holds.pid_ne {snap : Snapshot} {pid : Int} {n : ℕ} (h : snap.Holds pid n) :
    pid ≠ -1 := by
  have hp := (List.mem_filter.mp h.1).2
  exact of_decide_eq_true hp

/-! ## Links -/

theorem length_decimal_le {n : ℕ} (h : n < 2 ^ 31) : (decimal n).length ≤ 10 := by
  rw [decimal, List.length_map, Nat.length_toDigits_le_iff (by decide) (by decide)]
  omega

/-- The link of a socket is read as its inode. -/
theorem readFdLink_socket (pid : Int) (t : ConnTable) {n : ℕ} (h : n < 2 ^ 31) :
    readFdLink pid t (FdLink.socket n h).text =
      match t.findINode (UInt32.ofNat n) with
      | none => t
      | some connID =>
        if (t.conns connID).pid = -1 then
          { t with
            conns := Function.update t.conns connID { t.conns connID with pid := pid }
            nConnsWithPID := t.nConnsWithPID + 1 }
        else t := by
  have hlen := length_decimal_le h
  have hne : decimal n ≠ [] := by simp [decimal]
  have hpos : 0 < (decimal n).length := List.length_pos_of_ne_nil hne
  -- the buffer of `readlink` holds the whole text
  have htake : (FdLink.socket n h).text.take 4096 = socketPrefix ++ decimal n ++ [93] := by
    apply List.take_of_length_le
    simp only [FdLink.text, socketPrefix, List.length_append, List.length_cons, List.length_nil]
    omega
  have hdigits : cString (decimal n) = decimal n := by
    apply cString_of_forall_ne_zero
    rintro b hb rfl
    exact absurd (isDigit_of_mem_decimal hb) (by decide)
  -- an inode below 2^31 is read by `atoi` as it is
  have hinode : UInt32.ofInt (n : Int) = UInt32.ofNat n := by
    have hmod : ((n : Int) % 2 ^ 32).toNat = n := by omega
    rw [UInt32.ofInt, hmod]
  have hcond : 9 < (socketPrefix ++ decimal n ++ [93]).length ∧
      socketPrefix <+: socketPrefix ++ decimal n ++ [93] ∧
      (socketPrefix ++ decimal n ++ [93]).getLast? = some 93 := by
    refine ⟨?_, ?_, List.getLast?_concat⟩
    · simp only [socketPrefix, List.length_append, List.length_cons, List.length_nil]
      omega
    · rw [List.append_assoc]
      exact List.prefix_append _ _
  have hdrop : (socketPrefix ++ decimal n).drop 8 = decimal n := rfl
  unfold readFdLink
  rw [htake]
  dsimp only
  rw [if_pos hcond, List.dropLast_concat, hdrop, hdigits, atoi_decimal]
  exact hinode ▸ rfl

theorem readFdLink_other (pid : Int) (t : ConnTable) {path : Bytes}
    (h : ¬socketPrefix <+: path) : readFdLink pid t (FdLink.other path h).text = t := by
  unfold readFdLink
  dsimp only
  apply if_neg
  rintro ⟨_, hpre, _⟩
  exact h (hpre.trans (List.take_prefix _ _))

/-! ## Attaching processes -/

/-- What joining processes does from `t` to `t'`. -/
structure Attached (snap : Snapshot) (t t' : ConnTable) : Prop where
  same : SameButPid t t'
  rows : t'.iNode2connid = t.iNode2connid
  nNewConns : t'.nNewConns = t.nNewConns
  sound : ∀ c, (t'.conns c).pid ≠ (t.conns c).pid → (t.conns c).pid = -1 ∧
    ∃ n, snap.Holds (t'.conns c).pid n ∧ t.findINode (UInt32.ofNat n) = some c
  counted : ∃ hit : List ℕ, hit.Nodup ∧ t'.nConnsWithPID = t.nConnsWithPID + hit.length ∧
    ∀ c ∈ hit, (t'.conns c).pid ≠ (t.conns c).pid

namespace Attached

variable {snap : Snapshot} {t t' t'' : ConnTable}

theorem refl (snap : Snapshot) (t : ConnTable) : Attached snap t t where
  same := SameButPid.refl t
  rows := rfl
  nNewConns := rfl
  sound _ h := absurd rfl h
  counted := ⟨[], List.nodup_nil, rfl, fun _ hc => absurd hc List.not_mem_nil⟩

theorem findINode_eq (h : Attached snap t t') (iNode : DWORD) :
    t'.findINode iNode = t.findINode iNode := by
  have hiNode (c : ℕ) : (t'.conns c).iNode = (t.conns c).iNode := by rw [h.same.2 c]
  simp only [ConnTable.findINode, h.rows, hiNode]

/-- A process that was found stays. -/
theorem pid_eq (h : Attached snap t t') {c : ℕ} (hc : (t.conns c).pid ≠ -1) :
    (t'.conns c).pid = (t.conns c).pid := by
  by_contra hne
  exact hc (h.sound c hne).1

theorem trans (h : Attached snap t t') (h' : Attached snap t' t'') : Attached snap t t'' := by
  refine ⟨h.same.trans h'.same, h'.rows.trans h.rows, h'.nNewConns.trans h.nNewConns, ?_, ?_⟩
  · intro c hc
    by_cases hmid : (t'.conns c).pid = (t.conns c).pid
    · rw [← hmid] at hc ⊢
      obtain ⟨hnone, n, hholds, hfind⟩ := h'.sound c hc
      exact ⟨hnone, n, hholds, by rw [← h.findINode_eq]; exact hfind⟩
    · obtain ⟨hnone, n, hholds, hfind⟩ := h.sound c hmid
      rw [h'.pid_eq hholds.pid_ne]
      exact ⟨hnone, n, hholds, hfind⟩
  · obtain ⟨hit, hnodup, hcount, hhit⟩ := h.counted
    obtain ⟨hit', hnodup', hcount', hhit'⟩ := h'.counted
    -- an entry hit first has a process, so it is not hit again
    have hset {c : ℕ} (hc : c ∈ hit) : (t'.conns c).pid ≠ -1 := by
      obtain ⟨_, n, hholds, _⟩ := h.sound c (hhit c hc)
      exact hholds.pid_ne
    refine ⟨hit ++ hit', ?_, ?_, ?_⟩
    · refine List.nodup_append.mpr ⟨hnodup, hnodup', fun c hc c' hc' heq => ?_⟩
      subst heq
      exact hset hc (h'.sound c (hhit' c hc')).1
    · rw [hcount', hcount, List.length_append, Nat.add_assoc]
    · intro c hc
      rcases List.mem_append.mp hc with hc | hc
      · rw [h'.pid_eq (hset hc)]
        exact hhit c hc
      · have hnone := (h'.sound c (hhit' c hc)).1
        by_cases hmid : (t'.conns c).pid = (t.conns c).pid
        · rw [← hmid]
          exact hhit' c hc
        · obtain ⟨_, n, hholds, _⟩ := h.sound c hmid
          exact absurd hnone hholds.pid_ne

end Attached

/-- Everything a search for a descriptor of the process leads to has a process. -/
def Settled (snap : Snapshot) (t : ConnTable) (pid : Int) : Prop :=
  ∀ n, snap.Holds pid n → ∀ c, t.findINode (UInt32.ofNat n) = some c → (t.conns c).pid ≠ -1

theorem Settled.attached {snap : Snapshot} {t t' : ConnTable} {pid : Int}
    (h : Settled snap t pid) (ha : Attached snap t t') : Settled snap t' pid := by
  intro n hholds c hfind
  rw [ha.findINode_eq] at hfind
  have hset := h n hholds c hfind
  rw [ha.pid_eq hset]
  exact hset

/-- The step of the join: one descriptor. -/
theorem readFdLink_attached {snap : Snapshot} {pid : Int} {n : ℕ} (t : ConnTable)
    (hholds : snap.Holds pid n) :
    Attached snap t (readFdLink pid t (FdLink.socket n hholds.lt).text) ∧
      ∀ c, t.findINode (UInt32.ofNat n) = some c →
        ((readFdLink pid t (FdLink.socket n hholds.lt).text).conns c).pid ≠ -1 := by
  rw [readFdLink_socket]
  cases hfind : t.findINode (UInt32.ofNat n) with
  | none => exact ⟨Attached.refl snap t, fun c hc => by cases hc⟩
  | some connID =>
      dsimp only
      -- a socket without a process is given this one; another keeps its own
      split
      · rename_i hnone
        constructor
        · refine ⟨?_, rfl, rfl, ?_, [connID], List.nodup_singleton _, rfl, ?_⟩
          · refine ⟨rfl, fun i => ?_⟩
            by_cases hi : i = connID
            · subst hi
              simp
            · simp [Function.update_of_ne hi]
          · intro c hc
            by_cases hi : c = connID
            · subst hi
              simp only [Function.update_self]
              exact ⟨hnone, n, hholds, hfind⟩
            · exact absurd (by simp [Function.update_of_ne hi]) hc
          · intro c hc
            rw [List.mem_singleton.mp hc, hnone]
            simpa using hholds.pid_ne
        · intro c hc
          cases hc
          simpa using hholds.pid_ne
      · rename_i hset
        refine ⟨Attached.refl snap t, fun c hc => ?_⟩
        cases hc
        exact hset

/-- One process: all its descriptors. -/
theorem readProcFD_attached {snap : Snapshot} {pid : Int} (hpid : pid ∈ snap.pids)
    (t : ConnTable) :
    Attached snap t (readProcFD snap.procFs pid t) ∧
      Settled snap (readProcFD snap.procFs pid t) pid := by
  cases hfds : snap.fds pid with
  | none =>
      have hnone : snap.procFs.fds pid = none := by simp [Snapshot.procFs, hfds]
      have hread : readProcFD snap.procFs pid t = t := by rw [readProcFD, hnone]
      rw [hread]
      refine ⟨Attached.refl snap t, ?_⟩
      rintro n ⟨_, links, hlinks, _⟩
      rw [hfds] at hlinks
      cases hlinks
  | some links =>
      have htext : snap.procFs.fds pid = some (links.map FdLink.text) := by
        simp [Snapshot.procFs, hfds]
      have hread : readProcFD snap.procFs pid t =
          (links.map FdLink.text).foldl (readFdLink pid) t := by rw [readProcFD, htext]
      -- the loop over the descriptors from any point on
      have hloop : ∀ (rest : List FdLink) (t : ConnTable), (∀ link ∈ rest, link ∈ links) →
          Attached snap t ((rest.map FdLink.text).foldl (readFdLink pid) t) ∧
          ∀ n h, FdLink.socket n h ∈ rest → ∀ c, t.findINode (UInt32.ofNat n) = some c →
            (((rest.map FdLink.text).foldl (readFdLink pid) t).conns c).pid ≠ -1 := by
        intro rest
        induction rest with
        | nil =>
            intro t _
            exact ⟨Attached.refl snap t, fun n h hmem => absurd hmem List.not_mem_nil⟩
        | cons link rest ih =>
            intro t hsub
            simp only [List.forall_mem_cons] at hsub
            rw [List.map_cons, List.foldl_cons]
            cases link with
            | other path h =>
                rw [readFdLink_other]
                obtain ⟨ha, hset⟩ := ih t hsub.2
                refine ⟨ha, fun n hn hmem => hset n hn ?_⟩
                rcases List.mem_cons.mp hmem with hmem | hmem
                · cases hmem
                · exact hmem
            | socket m h =>
                have hholds : snap.Holds pid m := ⟨hpid, links, hfds, h, hsub.1⟩
                obtain ⟨ha₁, hset₁⟩ := readFdLink_attached t hholds
                obtain ⟨ha, hset⟩ := ih (readFdLink pid t (FdLink.socket m h).text) hsub.2
                refine ⟨ha₁.trans ha, fun n hn hmem c hfind => ?_⟩
                rcases List.mem_cons.mp hmem with hmem | hmem
                · cases hmem
                  rw [ha.pid_eq (hset₁ c hfind)]
                  exact hset₁ c hfind
                · exact hset n hn hmem c (by rw [ha₁.findINode_eq]; exact hfind)
      obtain ⟨ha, hset⟩ := hloop links t fun _ h => h
      rw [hread]
      refine ⟨ha, ?_⟩
      rintro n ⟨_, links', hlinks', hn, hmem⟩ c hfind
      rw [hfds] at hlinks'
      cases hlinks'
      rw [ha.findINode_eq] at hfind
      exact hset n hn hmem c hfind

/-- The loop over the processes: in the end every one of them is settled, unless
the loop was left because the counters agree. -/
theorem attachFrom_attached {snap : Snapshot} {pids : List Int}
    (hpids : ∀ pid ∈ pids, pid ∈ snap.pids) (t : ConnTable) :
    Attached snap t (attachFrom snap.procFs pids t) ∧
      ((∀ pid ∈ pids, Settled snap (attachFrom snap.procFs pids t) pid) ∨
        (attachFrom snap.procFs pids t).nConnsWithPID =
          (attachFrom snap.procFs pids t).nNewConns) := by
  induction pids generalizing t with
  | nil => exact ⟨Attached.refl snap t, Or.inl fun pid hpid => absurd hpid List.not_mem_nil⟩
  | cons pid pids ih =>
      simp only [List.forall_mem_cons] at hpids
      obtain ⟨ha₁, hset₁⟩ := readProcFD_attached hpids.1 t
      unfold attachFrom
      dsimp only
      split
      · rename_i hdone
        exact ⟨ha₁, Or.inr hdone⟩
      · obtain ⟨ha, hend⟩ := ih hpids.2 (readProcFD snap.procFs pid t)
        refine ⟨ha₁.trans ha, ?_⟩
        rcases hend with hset | hdone
        · left
          simp only [List.forall_mem_cons]
          exact ⟨hset₁.attached ha, hset⟩
        · exact Or.inr hdone

/-- The directory loop collects the processes, as long as `PIDs` holds them. -/
theorem pushPid_foldlM (L : Limits) (names : List Bytes) {pids : List Int}
    (hpids : pids.length ≤ L.pids) :
    names.foldlM (pushPid L) pids =
      if (pids ++ (names.map getProcessID).filter (· ≠ -1)).length ≤ L.pids then
        .ok (pids ++ (names.map getProcessID).filter (· ≠ -1))
      else .error (.outOfBounds "PIDs") := by
  induction names generalizing pids with
  | nil => simp [hpids, pure, Except.pure]
  | cons name names ih =>
      rw [List.foldlM_cons, List.map_cons]
      by_cases hpid : getProcessID name = -1
      · have hpush : pushPid L pids name = .ok pids := by simp [pushPid, hpid]
        rw [hpush, List.filter_cons_of_neg (by simpa using hpid)]
        exact ih hpids
      · rw [List.filter_cons_of_pos (by simpa using hpid)]
        -- the array is full
        by_cases hfull : L.pids ≤ pids.length
        · have hpush : pushPid L pids name = .error (.outOfBounds "PIDs") := by
            simp [pushPid, hpid, hfull]
          rw [hpush, if_neg]
          · rfl
          · rw [List.length_append, List.length_cons]
            omega
        · have hpush : pushPid L pids name = .ok (pids ++ [getProcessID name]) := by
            simp [pushPid, hpid, hfull]
          have hroom : (pids ++ [getProcessID name]).length ≤ L.pids := by
            rw [List.length_append, List.length_singleton]
            omega
          rw [hpush]
          change names.foldlM (pushPid L) (pids ++ [getProcessID name]) = _
          rw [ih hroom, List.append_assoc, List.singleton_append]

end MobiPerf.SocketProc
