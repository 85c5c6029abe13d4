import MobiPerf.SocketProc.Attribution
import MobiPerf.SocketProc.Uses

/-!
# SocketProc.Bounds — when the tables overflow

No append of `socket_proc.c` tests its limit. Some indexes are kept in range by
another limit: those into `procs` and the set lists (at most one element for
each entry of `conns`), the columns of `iNode2connid` (bytes) and whatever is
read through a counter. What decides is the number of lines in the socket tables
and of processes in `/proc`, against the entries the table still holds:
`eventFits` is that condition on one event, and a run uses indexes in range
exactly when each of its events meets it.
-/

namespace MobiPerf.SocketProc

open Lib

/-! ## The condition -/

/-- The number of entries a line adds; `none` when the run stops at one of its
ports. -/
def lineAdds (line : Bytes) : Option ℕ :=
  let fs := fields (cString line)
  if (readEndpoint fs 1 (0, 0)).isOk && (readEndpoint fs 2 (0, 0)).isOk then
    some (if fs[9]?.isSome then 1 else 0)
  else none

/-- The number of entries the lines add. -/
def linesAdd : List Bytes → Option ℕ
  | [] => some 0
  | line :: lines => do return (← lineAdds line) + (← linesAdd lines)

/-- A table of `n` entries has a free one whenever one of the lines is read. -/
def linesFit (n : ℕ) : List Bytes → Bool
  | [] => true
  | line :: lines => n < maxConns && (lineAdds line).all fun k => linesFit (n + k) lines

/-- The lines one refresh reads. -/
def allLines (fs : ProcFs) : List Bytes :=
  netLines fs "/proc/net/tcp" ++ (netLines fs "/proc/net/tcp6" ++
    (netLines fs "/proc/net/udp" ++ netLines fs "/proc/net/udp6"))

/-- The number of processes. -/
def processCount (fs : ProcFs) : ℕ :=
  (fs.dirents.getD []).countP fun name => getProcessID name ≠ -1

/-- A refresh that starts from `n` entries finds room for the sockets and, if it
gets that far, for the processes. -/
def refreshFits (fs : ProcFs) (n : ℕ) : Bool :=
  linesFit n (allLines fs) &&
    ((linesAdd (allLines fs)).isNone || processCount fs ≤ maxPids)

/-- The condition on one event: a packet that no fresh entry takes finds room. -/
def eventFits : Event → State → Bool
  | .restart _, _ => true
  | .packet fs pkt, s =>
    match lookupConn (fun c => c.Fresh pkt.curSec) pkt s with
    | .ok none => refreshFits fs s.nConns
    | _ => true

/-- The condition on each event of a run. -/
def runFits : List Event → State → Bool
  | [], _ => true
  | e :: es, s => eventFits e s && (step srcLimits e s).all (runFits es)

/-! ## Lists of uses -/

/-- Every listed index is within its array. -/
def AllInBounds (us : List Use) : Prop := ∀ u ∈ us, u.InBounds

@[simp] theorem allInBounds_nil : AllInBounds [] := fun _ h => absurd h List.not_mem_nil

@[simp] theorem allInBounds_cons {u : Use} {us : List Use} :
    AllInBounds (u :: us) ↔ u.InBounds ∧ AllInBounds us :=
  List.forall_mem_cons

@[simp] theorem allInBounds_append {us vs : List Use} :
    AllInBounds (us ++ vs) ↔ AllInBounds us ∧ AllInBounds vs :=
  List.forall_mem_append

/-- What is used after a call is used when the call returns. -/
theorem allInBounds_after {ε α : Type} {x : Except ε α} {log : α → List Use} :
    AllInBounds (after x log) ↔ ∀ a, x = .ok a → AllInBounds (log a) :=
  forall_mem_after

/-- The uses of all are in bounds when those of each are. -/
theorem allInBounds_flatMap {α : Type} {l : List α} {f : α → List Use} :
    AllInBounds (l.flatMap f) ↔ ∀ a ∈ l, AllInBounds (f a) := by
  simp only [AllInBounds, List.mem_flatMap]
  constructor
  · intro h a ha u hu
    exact h u ⟨a, ha, hu⟩
  · rintro h u ⟨a, ha, hu⟩
    exact h a ha u hu

/-- The first cells of an array are in bounds when it has so many. -/
theorem allInBounds_upTo {a : ArrayName} {n : ℕ} (h : n ≤ a.size) : AllInBounds (upTo a n) := by
  intro u hu
  rcases List.mem_map.mp hu with ⟨i, hi, rfl⟩
  exact Nat.lt_of_lt_of_le (List.mem_range.mp hi) h

/-- A byte is an index of any of the arrays. -/
theorem inBounds_byte (a : ArrayName) (b : BYTE) : Use.InBounds (a, b.toNat) := by
  have hb : b.toNat < 256 := b.toNat_lt
  have hsize : 256 ≤ a.size := by cases a <;> decide
  exact Nat.lt_of_lt_of_le hb hsize

/-! ## Sockets -/

/-- A file is read line by line: the loop of `ReadConnections`. -/
theorem readConnections_eq (L : Limits) (fs : ProcFs) (filename : String) (protocol : ℕ)
    (curSec : Int) (t : ConnTable) :
    readConnections L fs filename protocol curSec t =
      (netLines fs filename).foldlM (readLine L protocol curSec) t := by
  unfold readConnections netLines
  cases fs.netFile filename with
  | none => rfl
  | some content => rfl

/-- Whether a field is understood does not depend on what the entry held. -/
theorem readEndpoint_isOk (fs : List Bytes) (j : ℕ) (old old' : DWORD × ℕ) :
    (readEndpoint fs j old).isOk = (readEndpoint fs j old').isOk := by
  unfold readEndpoint
  split
  · rfl
  · rfl

/-- While the table has a free entry, a line adds what its text says. -/
theorem readLine_nConns {L : Limits} {protocol : ℕ} {curSec : Int} {t : ConnTable}
    (h : t.nConns < L.conns) (line : Bytes) :
    (readLine L protocol curSec t line).toOption.map (·.nConns) =
      (lineAdds line).map (t.nConns + ·) := by
  unfold readLine lineAdds
  rw [if_neg (Nat.not_le.mpr h)]
  dsimp only
  rw [readEndpoint_isOk _ 1 (0, 0) ((t.conns t.nConns).localIP, (t.conns t.nConns).localPort),
    readEndpoint_isOk _ 2 (0, 0) ((t.conns t.nConns).remoteIP, (t.conns t.nConns).remotePort)]
  generalize readEndpoint (fields (cString line)) 1 _ = loc
  generalize readEndpoint (fields (cString line)) 2 _ = rem
  cases loc with
  | error e => rfl
  | ok a =>
      cases rem with
      | error e => rfl
      | ok b =>
          cases (fields (cString line))[9]? with
          | none => rfl
          | some f => rfl

/-- A line fits when there is room, and then those behind it. -/
theorem linesFit_cons {n : ℕ} {line : Bytes} {lines : List Bytes} :
    linesFit n (line :: lines) = true ↔
      n < maxConns ∧ ∀ k, lineAdds line = some k → linesFit (n + k) lines = true := by
  simp only [linesFit, Bool.and_eq_true, decide_eq_true_eq]
  cases lineAdds line with
  | none => simp
  | some k => simp

/-- Lines fit when the first of them do, and the rest behind what they add. -/
theorem linesFit_append {n : ℕ} {lines lines' : List Bytes} :
    linesFit n (lines ++ lines') = true ↔
      linesFit n lines = true ∧
        ∀ k, linesAdd lines = some k → linesFit (n + k) lines' = true := by
  induction lines generalizing n with
  | nil => simp [linesFit, linesAdd]
  | cons line lines ih =>
      rw [List.cons_append, linesFit_cons, linesFit_cons, linesAdd]
      cases lineAdds line with
      | none => simp
      | some j =>
          cases hlines : linesAdd lines with
          | none => simp [ih, hlines]
          | some k => simp [ih, hlines, and_assoc, Nat.add_assoc]

/-- Lines add what each part of them adds. -/
theorem linesAdd_append (lines lines' : List Bytes) :
    linesAdd (lines ++ lines') = do return (← linesAdd lines) + (← linesAdd lines') := by
  induction lines with
  | nil => simp [linesAdd]
  | cons line lines ih =>
      rw [List.cons_append, linesAdd, linesAdd, ih]
      cases lineAdds line with
      | none => rfl
      | some j =>
          cases linesAdd lines with
          | none => rfl
          | some k =>
              cases linesAdd lines' with
              | none => rfl
              | some l => simp [Nat.add_assoc]

section ReadConnections

variable {protocol : ℕ} {curSec : Int}

/-- The lines of one table use indexes in range exactly when they fit. -/
theorem readLines_inBounds (lines : List Bytes) (t : ConnTable) :
    AllInBounds (foldLog (readLine srcLimits protocol curSec) (readLineUses protocol curSec)
      lines t) ↔ linesFit t.nConns lines = true := by
  induction lines generalizing t with
  | nil => simp [foldLog, linesFit]
  | cons line lines ih =>
      rw [foldLog, allInBounds_append, allInBounds_after, linesFit_cons]
      have huses : AllInBounds (readLineUses protocol curSec t line) ↔ t.nConns < maxConns := by
        unfold readLineUses
        rw [allInBounds_cons, allInBounds_after, and_iff_left]
        · rfl
        · intro _ _
          split
          · exact allInBounds_nil
          · rw [allInBounds_cons, allInBounds_cons]
            exact ⟨inBounds_byte .iNode2connid 0, inBounds_byte .iNode2connid _, allInBounds_nil⟩
      rw [huses]
      refine and_congr_right fun hlt => ?_
      simp only [ih]
      rw [forall_ok_iff (P := fun n => linesFit n lines = true)
        (readLine_nConns (L := srcLimits) hlt line)]
      simp [Option.map_eq_some_iff]

/-- Lines that fit add what their texts say. -/
theorem readLines_nConns {lines : List Bytes} {t : ConnTable}
    (h : linesFit t.nConns lines = true) :
    (lines.foldlM (readLine srcLimits protocol curSec) t).toOption.map (·.nConns) =
      (linesAdd lines).map (t.nConns + ·) := by
  induction lines generalizing t with
  | nil => rfl
  | cons line lines ih =>
      rcases linesFit_cons.mp h with ⟨hlt, hrest⟩
      have hline : (readLine srcLimits protocol curSec t line).toOption.map (·.nConns) =
          (lineAdds line).map (t.nConns + ·) := readLine_nConns hlt line
      rw [List.foldlM_cons, linesAdd]
      -- `linesAdd` is `none` where the reading halts
      cases hread : readLine srcLimits protocol curSec t line with
      | error e =>
          rw [hread] at hline
          have hnone : lineAdds line = none := Option.map_eq_none_iff.mp hline.symm
          rw [hnone]
          rfl
      | ok t' =>
          rw [hread] at hline
          rcases Option.map_eq_some_iff.mp hline.symm with ⟨k, hk, hn⟩
          have hn : t.nConns + k = t'.nConns := hn
          rw [hk]
          have hfit : linesFit t'.nConns lines = true := hn ▸ hrest k hk
          have hlines := ih hfit
          rw [← hn] at hlines
          show ((lines.foldlM (readLine srcLimits protocol curSec) t').toOption.map _) = _
          rw [hlines]
          cases linesAdd lines with
          | none => rfl
          | some l => simp [Nat.add_assoc]

end ReadConnections

/-- One file of a refresh, followed by files whose lines are `rest`. -/
theorem readConnections_inBounds {fs : ProcFs} {filename : String} {protocol : ℕ} {curSec : Int}
    {rest : List Bytes} {log : ConnTable → List Use}
    (hlog : ∀ t, AllInBounds (log t) ↔ linesFit t.nConns rest = true) (t : ConnTable) :
    AllInBounds (readConnectionsUses fs filename protocol curSec t ++
      after (readConnections srcLimits fs filename protocol curSec t) log) ↔
      linesFit t.nConns (netLines fs filename ++ rest) = true := by
  rw [allInBounds_append, linesFit_append, allInBounds_after, readConnections_eq]
  unfold readConnectionsUses
  rw [readLines_inBounds]
  refine and_congr_right fun hfit => ?_
  simp only [hlog]
  rw [forall_ok_iff (P := fun n => linesFit n rest = true) (readLines_nConns hfit)]
  simp [Option.map_eq_some_iff]

/-- Reading all files stays in bounds exactly when their lines fit. -/
theorem readAll_inBounds (fs : ProcFs) (curSec : Int) (t : ConnTable) :
    AllInBounds (readAllUses fs curSec t) ↔ linesFit t.nConns (allLines fs) = true := by
  unfold readAllUses allLines
  refine readConnections_inBounds (fun t => ?_) t
  refine readConnections_inBounds (fun t => ?_) t
  refine readConnections_inBounds (fun t => ?_) t
  exact readLines_inBounds _ t

/-- A file whose lines fit adds its sockets, and then the rest is read. -/
theorem readConnections_nConns {fs : ProcFs} {filename : String} {protocol : ℕ} {curSec : Int}
    {rest : List Bytes} {read : ConnTable → Except Halt ConnTable}
    (hread : ∀ t, linesFit t.nConns rest = true →
      (read t).toOption.map (·.nConns) = (linesAdd rest).map (t.nConns + ·))
    {t : ConnTable} (h : linesFit t.nConns (netLines fs filename ++ rest) = true) :
    (readConnections srcLimits fs filename protocol curSec t >>= read).toOption.map (·.nConns) =
      (linesAdd (netLines fs filename ++ rest)).map (t.nConns + ·) := by
  rcases linesFit_append.mp h with ⟨hfit, hrest⟩
  have hlines : (readConnections srcLimits fs filename protocol curSec t).toOption.map
      (·.nConns) = (linesAdd (netLines fs filename)).map (t.nConns + ·) := by
    rw [readConnections_eq]
    exact readLines_nConns hfit
  rw [linesAdd_append]
  -- `linesAdd` is `none` where the reading halts
  cases hcall : readConnections srcLimits fs filename protocol curSec t with
  | error e =>
      rw [hcall] at hlines
      have hnone : linesAdd (netLines fs filename) = none := Option.map_eq_none_iff.mp hlines.symm
      rw [hnone]
      rfl
  | ok t' =>
      rw [hcall] at hlines
      rcases Option.map_eq_some_iff.mp hlines.symm with ⟨k, hk, hn⟩
      have hn : t.nConns + k = t'.nConns := hn
      have hnext := hread t' (hn ▸ hrest k hk)
      rw [← hn] at hnext
      rw [hk]
      show (read t').toOption.map _ = _
      rw [hnext]
      cases linesAdd rest with
      | none => rfl
      | some l => simp [Nat.add_assoc]

/-- All files together add the sockets of their lines. -/
theorem readAll_nConns {fs : ProcFs} {curSec : Int} {t : ConnTable}
    (h : linesFit t.nConns (allLines fs) = true) :
    (readAll srcLimits fs curSec t).toOption.map (·.nConns) =
      (linesAdd (allLines fs)).map (t.nConns + ·) := by
  unfold readAll
  unfold allLines at h ⊢
  refine readConnections_nConns (fun t h => ?_) h
  refine readConnections_nConns (fun t h => ?_) h
  refine readConnections_nConns (fun t h => ?_) h
  rw [readConnections_eq]
  exact readLines_nConns h

/-! ## Processes -/

/-- The processes fit `PIDs` exactly when there are no more than it has cells. -/
theorem pushPid_uses_inBounds (names : List Bytes) {pids : List Int}
    (h : pids.length ≤ maxPids) :
    AllInBounds (foldLog (pushPid srcLimits) pushPidUses names pids) ↔
      pids.length + names.countP (fun name => getProcessID name ≠ -1) ≤ maxPids := by
  induction names generalizing pids with
  | nil => simpa [foldLog] using h
  | cons name names ih =>
      rw [foldLog, allInBounds_append, allInBounds_after]
      by_cases hpid : getProcessID name = -1
      · have hpush : pushPid srcLimits pids name = .ok pids := by simp [pushPid, hpid]
        rw [hpush]
        simp [pushPidUses, hpid, ih h]
      · have hin : AllInBounds (pushPidUses pids name) ↔ pids.length < maxPids := by
          simp [pushPidUses, hpid, Use.InBounds, ArrayName.size]
        rw [hin, List.countP_cons_of_pos (by simpa using hpid)]
        by_cases hlt : pids.length < maxPids
        · have hpush : pushPid srcLimits pids name = .ok (pids ++ [getProcessID name]) := by
            have hle : ¬ srcLimits.pids ≤ pids.length := Nat.not_le.mpr hlt
            simp [pushPid, hpid, hle]
          rw [hpush]
          have hlen : (pids ++ [getProcessID name]).length = pids.length + 1 := by simp
          simp only [Except.ok.injEq, forall_eq', hlt, true_and]
          rw [ih (by omega), hlen]
          omega
        · constructor
          · rintro ⟨hlt', _⟩
            exact absurd hlt' hlt
          · omega

/-- A listing that returns has filled no more. -/
theorem pushPids_length {names : List Bytes} {pids pids' : List Int}
    (h : names.foldlM (pushPid srcLimits) pids = .ok pids') (hle : pids.length ≤ maxPids) :
    pids'.length ≤ maxPids := by
  refine foldlM_preserves (P := fun pids : List Int => pids.length ≤ maxPids) ?_ hle h
  intro pids name pids' hpids hpush
  unfold pushPid at hpush
  dsimp only at hpush
  split at hpush
  · cases hpush
    exact hpids
  · split at hpush
    · cases hpush
    · rename_i hlt
      cases hpush
      rw [List.length_append]
      have hlt : pids.length < maxPids := Nat.lt_of_not_le hlt
      exact hlt

/-- The buckets and entries a link is looked up in are there. -/
theorem readFdLink_inBounds (t : ConnTable) (link : Bytes) :
    AllInBounds (readFdLinkUses t link) := by
  unfold readFdLinkUses
  dsimp only
  split
  · rw [allInBounds_cons, allInBounds_flatMap]
    refine ⟨inBounds_byte .iNode2connid 0, fun i hi => ?_⟩
    rw [allInBounds_cons, allInBounds_cons]
    refine ⟨?_, inBounds_byte .conns _, allInBounds_nil⟩
    have hbyte := inBounds_byte .iNode2connid 255
    rw [List.mem_range] at hi
    have hcount := (t.iNode2connid (inoHash (UInt32.ofInt
      (atoi (cString ((link.take 4096).dropLast.drop 8))))) 0).toNat_lt
    exact Nat.lt_of_le_of_lt (m := 255) (by omega) hbyte
  · exact allInBounds_nil

/-- So it is for all links of a process. -/
theorem readLinks_inBounds (pid : Int) (links : List Bytes) (t : ConnTable) :
    AllInBounds (readLinksUses pid links t) := by
  induction links generalizing t with
  | nil => exact allInBounds_nil
  | cons link links ih => exact allInBounds_append.mpr ⟨readFdLink_inBounds t link, ih _⟩

/-- And for all processes that were listed. -/
theorem attachFrom_inBounds (fs : ProcFs) {pids : List Int} (h : pids.length ≤ maxPids)
    (t : ConnTable) : AllInBounds (attachFromUses fs pids t) := by
  induction pids generalizing t with
  | nil => exact allInBounds_nil
  | cons pid pids ih =>
      rw [List.length_cons] at h
      unfold attachFromUses
      refine allInBounds_append.mpr ⟨allInBounds_cons.mpr ⟨h, ?_⟩, ?_⟩
      · unfold readProcFDUses
        split
        · exact allInBounds_nil
        · exact readLinks_inBounds pid _ t
      · dsimp only
        split
        · exact allInBounds_nil
        · exact ih (by omega) _

/-- The join stays in bounds exactly when the processes fit. -/
theorem attachProcessInfo_inBounds (fs : ProcFs) (t : ConnTable) {p : ProcTable}
    (hp : p.pids = []) :
    AllInBounds (attachProcessInfoUses fs t p) ↔ processCount fs ≤ maxPids := by
  have hlen : p.pids.length ≤ maxPids := by simp [hp]
  unfold attachProcessInfoUses processCount
  rw [allInBounds_append, pushPid_uses_inBounds _ hlen, and_iff_left, hp]
  · simp
  · rw [allInBounds_after]
    intro pids hpids
    refine attachFrom_inBounds fs ?_ t
    rw [List.length_reverse]
    exact pushPids_length hpids hlen

/-! ## Names -/

/-- A name is read for at most one new process. -/
theorem getProcName_nProcs {L : Limits} {fs : ProcFs} {pid : Int} {p p' : ProcTable}
    {name : Option Bytes} (h : getProcName L fs pid p = .ok (name, p')) :
    p'.nProcs ≤ p.nProcs + 1 := by
  unfold getProcName at h
  split at h
  · cases h
    exact Nat.le_succ p.nProcs
  · split at h
    · cases h
      exact Nat.le_succ p.nProcs
    · split at h
      · cases h
      · dsimp only at h
        generalize (fgets 256 _) = line at h
        cases line with
        | none =>
            dsimp only at h
            split at h
            · cases h
              exact Nat.le_succ p.nProcs
            · cases h
              exact Nat.le_refl _
        | some line =>
            dsimp only at h
            split at h
            · cases h
              exact Nat.le_succ p.nProcs
            · cases h
              exact Nat.le_refl _

/-- Naming an entry takes one slot of `Procs` at most. -/
theorem updateName_nProcs {L : Limits} {fs : ProcFs} {st st' : NameLoop} {i : ℕ}
    (h : updateName L fs st i = .ok st') : st'.2.1.nProcs ≤ st.2.1.nProcs + 1 := by
  obtain ⟨hsame | ⟨name, hname⟩, -⟩ := updateName_cases h
  · rw [hsame]
    exact Nat.le_succ _
  · exact getProcName_nProcs hname

/-- Each entry's slot is there, since there are as many slots as entries. -/
theorem updateName_inBounds (fs : ProcFs) {st : NameLoop} {i : ℕ} (hi : i < maxConns)
    (hp : st.2.1.nProcs ≤ i) : AllInBounds (updateNameUses fs st i) := by
  rcases st with ⟨t, p, a⟩
  have hp : p.nProcs ≤ i := hp
  have hprocs : p.nProcs < maxProcs := Nat.lt_of_le_of_lt hp hi
  unfold updateNameUses
  refine allInBounds_cons.mpr ⟨hi, ?_⟩
  split
  · exact allInBounds_nil
  · refine allInBounds_append.mpr ⟨allInBounds_upTo (Nat.le_of_lt hprocs), ?_⟩
    split
    · exact allInBounds_cons.mpr ⟨hprocs, allInBounds_nil⟩
    · exact allInBounds_nil

/-- The loop of `UpdateNames` reads at most one name for each entry it has seen. -/
theorem updateNames_inBounds (fs : ProcFs) {st : NameLoop} (hn : st.1.nConns ≤ maxConns)
    (hp : st.2.1.nProcs = 0) : AllInBounds (updateNamesUses fs st) := by
  refine foldLog_range_induct (P := fun k (st : NameLoop) => st.2.1.nProcs ≤ k) ?_ (by omega)
  intro k st' hk hst
  refine ⟨updateName_inBounds fs (by omega) hst, fun st'' hbody => ?_⟩
  have hle := updateName_nProcs hbody
  omega

/-! ## Clean-up and indexes -/

/-- The clean-up stays within the entries. -/
theorem cleanConnectionInfo_inBounds (curSec : Int) {t : ConnTable} (hn : t.nConns ≤ maxConns) :
    AllInBounds (cleanConnectionInfoUses curSec t) := by
  unfold cleanConnectionInfoUses
  rw [allInBounds_append, allInBounds_flatMap, allInBounds_flatMap]
  constructor
  · intro i hi
    rw [List.mem_range] at hi
    have hlt : i < maxConns := by omega
    exact allInBounds_cons.mpr ⟨hlt, allInBounds_upTo (Nat.le_of_lt hlt)⟩
  · intro i hi
    rw [List.mem_range] at hi
    have hlt : i < maxConns := by omega
    -- the copy goes to a cell at or below the one being read
    have hcell := (Lib.foldl_range_induct (n := i)
      (P := Compacted ((List.range t.nConns).foldl (markConn curSec) t.conns))
      (fun _ _ _ h => keepConn_compacted h)
      (s := ((List.range t.nConns).foldl (markConn curSec) t.conns, 0))
      ⟨Nat.le_refl 0, fun _ _ => rfl, rfl⟩).le
    exact allInBounds_cons.mpr ⟨hlt, allInBounds_cons.mpr
      ⟨Nat.lt_of_le_of_lt hcell hlt, allInBounds_nil⟩⟩

/-- The set list of an index has at most one element for each entry indexed. -/
theorem updateConnid_inBounds {a : ArrayName} (ha : maxConns ≤ a.size) (key : ConnInfo → ℕ)
    {t : ConnTable} (hn : t.nConns ≤ maxConns) (ix : ConnIndex) :
    AllInBounds (updateConnidUses a key t ix) := by
  unfold updateConnidUses
  split
  · exact allInBounds_nil
  · rename_i hset
    -- an index is set at most once an entry, so the set list is no longer than the entries passed
    refine foldLog_range_induct (P := fun k (ix : ConnIndex) => ix.setList.length ≤ k) ?_
      (by omega)
    intro k ix' hk hix
    constructor
    · unfold indexEntryUses
      have hlt : k < maxConns := Nat.lt_of_lt_of_le hk hn
      refine allInBounds_cons.mpr ⟨hlt, ?_⟩
      split
      · have hlen : ix'.setList.length < a.size := by omega
        exact allInBounds_cons.mpr ⟨hlen, allInBounds_nil⟩
      · exact allInBounds_nil
    · intro ix'' hbody
      unfold indexEntry at hbody
      dsimp only at hbody
      split at hbody
      · cases hbody
      · split at hbody
        · split at hbody
          · cases hbody
          · cases hbody
            rw [List.length_append]
            exact Nat.succ_le_succ hix
        · cases hbody
          exact Nat.le_succ_of_le hix

/-! ## The state between calls -/

/-- What the counters and the slots lead to is within the arrays. -/
structure Bounded (s : State) : Prop where
  nConns : s.nConns ≤ maxConns
  portList : s.port2connid.setList.length ≤ maxConns
  ipList : s.ip2connid.setList.length ≤ maxConns
  port : ∀ k (i : ℕ), s.port2connid.slot k = i → i < maxConns
  ip : ∀ k (i : ℕ), s.ip2connid.slot k = i → i < maxConns

/-- An index that describes a table names its entries, each slot once. -/
theorem Indexes.setList_length_le {key : ConnInfo → ℕ} {t : ConnTable} {ix : ConnIndex}
    (h : Indexes key t.entries ix) : ix.setList.length ≤ t.nConns := by
  have hle := h.setList.length_le
  simpa [ConnTable.entries] using hle

/-- An index that describes the table names entries in use. -/
theorem Indexed.bounded {s : State} (h : Indexed s) (hn : s.nConns ≤ maxConns) : Bounded s where
  nConns := hn
  portList := Nat.le_trans h.port.setList_length_le hn
  ipList := Nat.le_trans h.ip.setList_length_le hn
  port := fun _ _ hslot => Nat.lt_of_lt_of_le (h.port.entry_of_slot hslot).1 hn
  ip := fun _ _ hslot => Nat.lt_of_lt_of_le (h.ip.entry_of_slot hslot).1 hn

/-- A bearer change empties the table and leaves the slots. -/
theorem Bounded.restart {s s' : State} (h : Bounded s) (hn : s'.nConns = 0)
    (hport : s'.port2connid = s.port2connid) (hip : s'.ip2connid = s.ip2connid) : Bounded s' where
  nConns := by omega
  portList := hport ▸ h.portList
  ipList := hip ▸ h.ipList
  port := hport ▸ h.port
  ip := hip ▸ h.ip

/-- A call leaves the state within its bounds. -/
theorem step_bounded {e : Event} {s s' : State} (hs : TablesOk srcLimits s) (hb : Bounded s)
    (h : step srcLimits e s = some s') : TablesOk srcLimits s' ∧ Bounded s' := by
  have htables : TablesOk srcLimits s' := step_tablesOk (by decide) hs h
  refine ⟨htables, ?_⟩
  cases e with
  | restart opens =>
      rcases startCapture_restart (step_restart.mp h) with ⟨hn, hport, hip⟩
      exact hb.restart hn hport hip
  | packet fs pkt =>
      rcases step_packet.mp h with ⟨a, hcall⟩
      rcases updatePacketCore_cases hcall with ⟨i, _, huse⟩ | ⟨s₁, hrefresh, hrest⟩
      · cases huse
        exact ⟨hb.nConns, hb.portList, hb.ipList, hb.port, hb.ip⟩
      · rcases updateProcessSocketInfo_spec (by decide) hs.nConns_le hs.undoable hrefresh with
          ⟨hindexed, hn, _, _⟩
        have hb₁ : Bounded s₁ := hindexed.bounded hn
        rcases hrest with ⟨i, _, huse⟩ | ⟨_, _, rfl⟩
        · cases huse
          exact ⟨hb₁.nConns, hb₁.portList, hb₁.ipList, hb₁.port, hb₁.ip⟩
        · exact hb₁

/-! ## A call -/

/-- `Init` writes the slots it has listed. -/
theorem initUses_inBounds {s : State} (h : Bounded s) : AllInBounds (initUses s) := by
  unfold initUses
  rw [allInBounds_append, allInBounds_cons]
  exact ⟨⟨inBounds_byte .iNode2connid 0, allInBounds_upTo h.portList⟩, allInBounds_upTo h.ipList⟩

/-- A lookup reads the slots of a packet, and entries in use. -/
theorem lookupConn_inBounds (pkt : Packet) {s : State} (h : Bounded s) :
    AllInBounds (lookupConnUses pkt s) := by
  have hslot : ∀ ix : ConnIndex, (∀ k (i : ℕ), ix.slot k = i → i < maxConns) → ∀ k,
      AllInBounds (if 0 ≤ ix.slot k then [(.conns, (ix.slot k).toNat)] else []) := by
    intro ix hix k
    split
    · rename_i hnonneg
      have hlt := hix k _ (Int.toNat_of_nonneg hnonneg).symm
      exact allInBounds_cons.mpr ⟨hlt, allInBounds_nil⟩
    · exact allInBounds_nil
  unfold lookupConnUses
  dsimp only
  rw [allInBounds_append, allInBounds_append]
  refine ⟨⟨hslot _ h.port _, hslot _ h.ip _⟩, ?_⟩
  split
  · exact allInBounds_upTo h.nConns
  · exact allInBounds_nil

/-- After the sockets only the number of processes matters. -/
theorem join_inBounds (fs : ProcFs) (curSec : Int) {s : State} {t : ConnTable}
    (hn : t.nConns ≤ maxConns) :
    AllInBounds (joinUses fs curSec (init s) t) ↔ processCount fs ≤ maxPids := by
  unfold joinUses
  rw [allInBounds_append, attachProcessInfo_inBounds fs t rfl, and_iff_left]
  rw [allInBounds_after]
  rintro ⟨t₂, p⟩ hattach
  have hn₂ : t₂.nConns ≤ maxConns := (attachProcessInfo_sameButPid hattach).1 ▸ hn
  have hp : p.nProcs = 0 := by
    unfold attachProcessInfo at hattach
    rcases Lib.except_bind_eq_ok.mp hattach with ⟨pids, _, heq⟩
    cases heq
    rfl
  refine allInBounds_append.mpr ⟨updateNames_inBounds fs hn₂ hp, ?_⟩
  rw [allInBounds_after]
  rintro ⟨t₃, p', a⟩ hnames
  have hn₃ : t₃.nConns ≤ maxConns := (updateNames_nConns hnames) ▸ hn₂
  have hclean := Nat.le_trans (cleanConnectionInfo_nConns_le curSec t₃) hn₃
  refine allInBounds_append.mpr ⟨cleanConnectionInfo_inBounds curSec hn₃, ?_⟩
  refine allInBounds_append.mpr ⟨updateConnid_inBounds (Nat.le_refl _) portKey hclean _, ?_⟩
  rw [allInBounds_after]
  intro _ _
  exact updateConnid_inBounds (Nat.le_refl _) ipKey hclean _

/-- A refresh uses indexes in range exactly when it finds room. -/
theorem updateProcessSocketInfo_inBounds (fs : ProcFs) (curSec : Int) {s : State}
    (hb : Bounded s) :
    AllInBounds (updateProcessSocketInfoUses fs curSec s) ↔ refreshFits fs s.nConns = true := by
  unfold updateProcessSocketInfoUses refreshFits
  rw [allInBounds_append, and_iff_right (initUses_inBounds hb), allInBounds_append,
    readAll_inBounds, Bool.and_eq_true]
  refine and_congr_right fun hfit => ?_
  have hjoin : ∀ t, readAll srcLimits fs curSec (init s).toConnTable = .ok t →
      (AllInBounds (joinUses fs curSec (init s) t) ↔ processCount fs ≤ maxPids) :=
    fun t hread => join_inBounds fs curSec
      (readAll_nConns_le (L := srcLimits) (t := (init s).toConnTable) hb.nConns hread)
  rw [allInBounds_after, forall_congr' fun t => imp_congr_right (hjoin t),
    forall_ok_iff (P := fun _ => processCount fs ≤ maxPids) (readAll_nConns hfit)]
  cases linesAdd (allLines fs) with
  | none => simp
  | some k => simp

/-- A call stays in bounds exactly when what it reads fits. -/
theorem uses_inBounds (e : Event) {s : State} (hb : Bounded s) (hs : TablesOk srcLimits s) :
    AllInBounds (uses e s) ↔ eventFits e s = true := by
  cases e with
  | restart opens => simp [uses, eventFits]
  | packet fs pkt =>
      unfold uses updatePacketCoreUses eventFits
      dsimp only
      rw [allInBounds_append, and_iff_right (lookupConn_inBounds pkt hb), allInBounds_after]
      cases lookupConn (fun c => c.Fresh pkt.curSec) pkt s with
      | error h => simp
      | ok hit =>
          cases hit with
          | some i => simp
          | none =>
              simp only [Except.ok.injEq, forall_eq']
              rw [allInBounds_append, updateProcessSocketInfo_inBounds fs pkt.curSec hb,
                and_iff_left]
              rw [allInBounds_after]
              intro s₁ hrefresh
              rcases updateProcessSocketInfo_spec (by decide) hs.nConns_le hs.undoable
                hrefresh with ⟨hindexed, hn, _, _⟩
              exact lookupConn_inBounds pkt (hindexed.bounded hn)

/-! ## Runs -/

/-- So does a run, call by call. -/
theorem runUses_inBounds (es : List Event) {s : State} (hs : TablesOk srcLimits s)
    (hb : Bounded s) : AllInBounds (runUses es s) ↔ runFits es s = true := by
  induction es generalizing s with
  | nil => simp [runUses, runFits]
  | cons e es ih =>
      unfold runUses runFits
      rw [allInBounds_append, uses_inBounds e hb hs, Bool.and_eq_true]
      refine and_congr_right fun _ => ?_
      cases hstep : step srcLimits e s with
      | none => simp
      | some s' =>
          rcases step_bounded hs hb hstep with ⟨hs', hb'⟩
          exact ih hs' hb'

/-- A first start is within its bounds. -/
theorem init_bounded {s : State} (h : (attribution srcLimits).Init s) :
    TablesOk srcLimits s ∧ Bounded s := by
  rcases init_indexed h with ⟨hindexed, hn⟩
  have hle : s.nConns ≤ maxConns := by omega
  exact ⟨⟨hle, hindexed.undoable, Or.inl hindexed⟩, hindexed.bounded hle⟩

/-- In every run every index used is within its array exactly when each event
finds room in the tables. -/
theorem inBounds_runs {s : State} (hs : (attribution srcLimits).Init s) (es : List Event) :
    AllInBounds (runUses es s) ↔ runFits es s = true := by
  rcases init_bounded hs with ⟨htables, hb⟩
  exact runUses_inBounds es htables hb

/-- Two packets of the one socket, the second charged to its fresh entry. -/
theorem inBounds_runs_oneSocket :
    AllInBounds (runUses [.packet oneSocket oneSocketPacket, .packet oneSocket oneSocketPacket]
      State.started) :=
  (inBounds_runs (init_started srcLimits) _).mpr (by decide +kernel)

/-! ## Too many sockets -/

/-- More lines than free entries do not fit. -/
theorem linesFit_replicate {n m : ℕ} {line : Bytes} (hline : lineAdds line = some 1)
    (hn : n ≤ maxConns) (h : maxConns < n + m) : ¬ linesFit n (List.replicate m line) = true := by
  induction m generalizing n with
  | zero => omega
  | succ m ih =>
      rw [List.replicate_succ, linesFit_cons]
      rintro ⟨hlt, hrest⟩
      exact ih (n := n + 1) hlt (by omega) (hrest 1 hline)

/-- The line of a socket. -/
def socketLine : Bytes :=
  text "0: 0100007F:0019 2C2BB20A:01BB 01 00000000:00000000 00:00000000 00000000 1000 0 7 1"

/-- A socket table with `m` such lines below the first line. -/
def sockets (m : ℕ) : ProcFs where
  netFile name :=
    if name = "/proc/net/tcp" then some (List.replicate (m + 1) (socketLine ++ [10])).flatten
    else none
  dirents := none
  fds _ := none
  cmdline _ := none

theorem netLines_sockets (m : ℕ) :
    netLines (sockets m) "/proc/net/tcp" = List.replicate m (socketLine ++ [10]) := by
  have hfuel : m + 1 ≤ (List.replicate (m + 1) (socketLine ++ [10])).flatten.length := by
    rw [List.length_flatten, List.map_replicate, List.sum_replicate_nat, List.length_append]
    exact Nat.le_mul_of_pos_right _ (Nat.succ_pos _)
  have hline : (∀ b ∈ socketLine, b ≠ 10) ∧ socketLine.length + 1 < 4096 := by decide +kernel
  have hread := fgetsLines_flatMap (List.replicate (m + 1) socketLine)
    (fun l hl => List.eq_of_mem_replicate hl ▸ hline) (List.length_replicate.trans_le hfuel)
  rw [List.flatMap_def, List.map_replicate] at hread
  have hfile : (sockets m).netFile "/proc/net/tcp" =
      some (List.replicate (m + 1) (socketLine ++ [10])).flatten := by
    simp [sockets]
  unfold netLines
  rw [hfile]
  dsimp only
  rw [hread, List.replicate_succ, List.tail_cons]

/-- With 513 sockets the first packet leaves the connection table. -/
theorem not_inBounds_sockets :
    ¬ ∀ s es, (attribution srcLimits).Init s → AllInBounds (runUses es s) := by
  intro hall
  have hin := hall State.started [.packet (sockets 513) oneSocketPacket] (init_started srcLimits)
  rcases init_bounded (init_started srcLimits) with ⟨htables, hb⟩
  rw [runUses_inBounds _ htables hb] at hin
  have hfull : ¬ linesFit 0 (netLines (sockets 513) "/proc/net/tcp") = true := by
    rw [netLines_sockets]
    exact linesFit_replicate (by decide +kernel) (by decide) (by decide)
  have hlook : lookupConn (fun c => c.Fresh oneSocketPacket.curSec) oneSocketPacket
      State.started = .ok none := rfl
  unfold runFits eventFits at hin
  dsimp only at hin
  rw [hlook] at hin
  simp only [Bool.and_eq_true, refreshFits] at hin
  exact hfull (linesFit_append.mp hin.1.1).1

end MobiPerf.SocketProc
