import MobiPerf.Capture.ExitFlag
import MobiPerf.SocketProc.Header

/-!
# Capture.AppIdLog — the app-id file beside the dump file

For every packet that passes its checks a read operation computes the id, writes
it as a line of the app-id file, and calls `dump_packet`, which looks at the stop
flag before it writes the packet. The capture thread is followed through
`pcap_loop`, both read operations and the callback, over any number of bearer
changes; the other threads are the labels that write the flag.

A frame is what the callback gets: the buffer with the cooked header or the VLAN
tag in place. Lengths are left out: no test before the callback reads them except
the two sanity checks, whose outcome is in the label.
-/

namespace MobiPerf.Capture

open SocketProc (ProcFs Limits srcLimits BYTE)

/-! ## Frames and handles -/

/-- A captured frame and the part of its address the checks look at. -/
structure Frame where
  sp : ℕ → BYTE
  tvSec : Int
  ifindex : Int
  outgoing : Bool

/-- `handle->direction`. -/
inductive Direction where
  | inOut
  | inOnly
  | outOnly
deriving DecidableEq, Repr

/-- `handle->read_op`. -/
inductive ReadOp where
  | standard
  | mmap
deriving DecidableEq, Repr

/-- What the read operations use of the handle. -/
structure Handle where
  readOp : ReadOp
  currentdevice : String
  ifindex : Int
  loIfindex : Int
  sockPacket : Bool
  direction : Direction
  cooked : Bool
  /-- the filter program, if one is set -/
  filter : Option (Frame → Bool)
  /-- 0: filter here; 1: the kernel does; above: frames still to filter here -/
  useBpf : ℕ
  breakLoop : Bool

/-- The packet's direction (1 up, 2 down), or a rejection. -/
def Handle.dirOf (h : Handle) (f : Frame) : Option ℕ :=
  if f.outgoing then
    if f.ifindex = h.loIfindex then none
    else if h.direction = .inOnly then none
    else some 1
  else if h.direction = .outOnly then none
  else some 2

/-- The checks of `pcap_read_packet`; `SOCK_PACKET` sockets make none. -/
def Handle.accepts (h : Handle) (f : Frame) : Option ℕ :=
  if h.sockPacket then some 0
  else if h.ifindex ≠ -1 ∧ f.ifindex ≠ h.ifindex then none
  else h.dirOf f

/-- `run_bpf` of the ring, with the counter stepped. -/
def Handle.runBpf (h : Handle) : Bool × Handle :=
  if h.useBpf = 0 then (true, h)
  else if 1 < h.useBpf then (true, { h with useBpf := h.useBpf - 1 })
  else (false, h)

/-- The filter program rejects the frame. -/
def Handle.rejects (h : Handle) (f : Frame) : Bool :=
  match h.filter with
  | none => false
  | some accepts => ! accepts f

/-! ## The capture thread -/

/-- What the system answers the capture thread. -/
inductive Reply where
  | ok
  | interrupted
  /-- no packet there, no frame in the ring -/
  | nothing
  | fails
  /-- a packet; `bad` when the check made after its direction is known fails -/
  | frame (f : Frame) (bad : Bool)
  | proc (fs : ProcFs)
  | reopened (opens : String → Bool) (h : Handle)

/-- How a `poll` ended. -/
inductive PollResult where
  | ready
  | interrupted
  | error
deriving DecidableEq, Repr

/-- `pcap_loop`, the two read operations, `dump_packet` and what follows the
loop. `pkts` is the count of the ring's batch. -/
inductive ReadPc where
  | loop (t : LoopTest)
  | enter
  | recvTest
  | recv
  | poll
  | pollTest (r : PollResult)
  | batch (pkts : ℕ)
  | update (f : Frame) (dir pkts : ℕ)
  | log (f : Frame) (appid : Int) (pkts : ℕ)
  /-- `if (exitFlag == 4) {return;}` of `dump_packet`, with the packet's id -/
  | dump4 (f : Frame) (appid : Int) (pkts : ℕ)
  | dump3 (f : Frame) (appid : Int) (pkts : ℕ)
  | dump (f : Frame) (appid : Int) (pkts : ℕ)
  /-- the callback returned -/
  | called (pkts : ℕ)
  | skip (pkts : ℕ)
  | returned (n : Int)
  | exitTest4
  | exitTest3
  | bearer
  /-- the capture ended; the end marker is written next -/
  | ended
  | exited

/-- The files written, the flag, and where the capture thread is. A dumped
packet is recorded with the id computed for it; the dump files of a capture
with bearer changes are one sequence. -/
structure LogState where
  exitFlag : ℕ
  handle : Handle
  tables : SocketProc.State
  cnt : Int
  pc : ReadPc
  appIdLines : List Int
  dumped : List (Frame × Int)

/-- Where a read operation goes on after the callback. -/
def afterCallback (op : ReadOp) (pkts : ℕ) : ReadPc :=
  match op with
  | .standard => .returned 1
  | .mmap => .skip pkts

/-- A frame of the ring: filtered, checked, handed on or skipped. -/
def ringFrame (s : LogState) (f : Frame) (noRoom : Bool) (pkts : ℕ) : LogState :=
  let (run, h) := s.handle.runBpf
  let s := { s with handle := h }
  if run && h.rejects f then { s with pc := .skip pkts }
  else
    match h.dirOf f with
    | none => { s with pc := .skip pkts }
    | some dir =>
      if h.cooked && noRoom then { s with pc := .returned (-1) }
      else { s with pc := .update f dir (pkts + 1) }

/-- A packet of the socket. -/
def recvFrame (s : LogState) (f : Frame) (noStamp : Bool) : LogState :=
  match s.handle.accepts f with
  | none => { s with pc := .returned 0 }
  | some dir =>
    if noStamp then { s with pc := .returned (-1) } else { s with pc := .update f dir 1 }

/-- `captureMode`, set on entry to a read operation. -/
def ReadOp.captureMode : ReadOp → ℕ
  | .standard => SocketProc.capLinuxStandard
  | .mmap => SocketProc.capLinuxMmap

/-- `pcap_loop`, and `tcpdumpstartcapture` after it. -/
def loopStep (opt : Options) (r : Reply) (s : LogState) : Option LogState :=
  match s.pc, r with
  | .loop t, .ok =>
    some { s with pc := if s.exitFlag = t.value then .exitTest4 else t.next.elim .enter .loop }
  | .returned n, .ok =>
    let (next, cnt) := afterRead opt s.cnt n
    some { s with cnt := cnt, pc := next.elim .exitTest4 .loop }
  | .exitTest4, .ok => some { s with pc := if s.exitFlag = 4 then .ended else .exitTest3 }
  | .exitTest3, .ok => some { s with pc := if s.exitFlag = 3 then .ended else .bearer }
  | .bearer, .reopened opens h =>
    match SocketProc.startCapture opens
        { s.tables with bearerChangedvalue := s.tables.bearerChangedvalue + 1 } with
    | .error _ => some { s with pc := .exited }
    | .ok tables =>
      some { s with
        exitFlag := tables.exitFlag, tables := tables, handle := h, cnt := opt.cnt
        pc := .loop .outer3 }
  | _, _ => none

/-- `pcap_read_packet` up to the computation of the id. -/
def readPacketStep (r : Reply) (s : LogState) : Option LogState :=
  match s.pc, r with
  | .enter, .ok => if s.handle.readOp = .standard then some { s with pc := .recvTest } else none
  | .recvTest, .ok => some { s with pc := if s.exitFlag = 3 then .returned (-2) else .recv }
  | .recv, .interrupted => some { s with pc := .recvTest }
  | .recv, .nothing => some { s with pc := .returned 0 }
  | .recv, .fails => some { s with pc := .returned (-1) }
  | .recv, .frame f noStamp => some (recvFrame s f noStamp)
  | _, _ => none

/-- `pcap_read_linux_mmap` up to the computation of the id, and from the
callback on. On entry the ring has a frame (`ok`) or is polled (`nothing`). -/
def readMmapStep (r : Reply) (s : LogState) : Option LogState :=
  match s.pc, r with
  | .enter, .ok => if s.handle.readOp = .mmap then some { s with pc := .batch 0 } else none
  | .enter, .nothing => if s.handle.readOp = .mmap then some { s with pc := .poll } else none
  | .poll, .ok => some { s with pc := .pollTest .ready }
  | .poll, .interrupted => some { s with pc := .pollTest .interrupted }
  | .poll, .fails => some { s with pc := .pollTest .error }
  | .pollTest result, .ok =>
    if s.exitFlag = 3 then
      some { s with handle := { s.handle with breakLoop := false }, pc := .returned (-2) }
    else if result = .error then some { s with pc := .returned (-1) }
    else if s.handle.breakLoop then
      some { s with handle := { s.handle with breakLoop := false }, pc := .returned (-2) }
    else some { s with pc := if result = .interrupted then .poll else .batch 0 }
  | .batch pkts, r =>
    if s.cnt ≤ pkts ∧ 0 < s.cnt then some { s with pc := .returned pkts }
    else
      match r with
      | .nothing => some { s with pc := .returned pkts }
      | .fails => some { s with pc := .returned (-1) }
      | .frame f noRoom => some (ringFrame s f noRoom pkts)
      | _ => none
  | .skip pkts, .ok =>
    if s.handle.breakLoop then
      some { s with handle := { s.handle with breakLoop := false }, pc := .returned (-2) }
    else some { s with pc := .batch pkts }
  | _, _ => none

/-- What both read operations do with a packet: `UpdatePacket`, the line, and
`dump_packet`. -/
def handPacketStep (r : Reply) (s : LogState) : Option LogState :=
  match s.pc, r with
  | .update f dir pkts, .proc fs =>
    match SocketProc.updatePacket srcLimits fs s.handle.readOp.captureMode f.tvSec f.sp
        s.handle.currentdevice dir s.handle.cooked s.tables with
    | .error _ => some { s with pc := .exited }
    | .ok (appid, tables) => some { s with tables := tables, pc := .log f appid pkts }
  | .log f appid pkts, .ok =>
    some { s with appIdLines := s.appIdLines ++ [appid], pc := .dump4 f appid pkts }
  | .dump4 f appid pkts, .ok =>
    some { s with pc := if s.exitFlag = 4 then .called pkts else .dump3 f appid pkts }
  | .dump3 f appid pkts, .ok =>
    some { s with pc := if s.exitFlag = 3 then .called pkts else .dump f appid pkts }
  | .dump f appid pkts, .ok =>
    some { s with dumped := s.dumped ++ [(f, appid)], pc := .called pkts }
  | .called pkts, .ok => some { s with pc := afterCallback s.handle.readOp pkts }
  | _, _ => none

/-- One step of the capture thread; each part is defined at its own points. -/
def captureStep (opt : Options) (r : Reply) (s : LogState) : Option LogState :=
  (loopStep opt r s).or <| (readPacketStep r s).or <| (readMmapStep r s).or <| handPacketStep r s

/-- A step of the capture thread, a write of the stop flag by another thread, or
the signal handler's `pcap_breakloop`. -/
inductive LogAct where
  | capture (r : Reply)
  | stop3
  | stop4
  | signal

def logStep (opt : Options) (a : LogAct) (s : LogState) : Option LogState :=
  match a with
  | .capture r => captureStep opt r s
  | .stop3 => some { s with exitFlag := 3 }
  | .stop4 => some { s with exitFlag := 4 }
  | .signal => some { s with handle := { s.handle with breakLoop := true } }

/-- The first activation, at its `pcap_loop`: the files are new, the tables and
the handle as the start left them. -/
def loggingInit (opt : Options) (s : LogState) : Prop :=
  (∃ opens, SocketProc.startCapture opens SocketProc.State.zero = .ok s.tables) ∧
    s.exitFlag = 0 ∧ s.cnt = opt.cnt ∧ s.pc = .loop .outer3 ∧ s.appIdLines = [] ∧ s.dumped = []

/-- The runs of a capture. -/
def logging (opt : Options) : Lib.System LogState LogAct where
  Init := loggingInit opt
  step := logStep opt

theorem logging_step (opt : Options) : (logging opt).step = logStep opt := rfl

/-! ## Alignment -/

/-- The lines are the ids of the dumped packets, one for one. -/
def Aligned (s : LogState) : Prop := s.appIdLines = s.dumped.map Prod.snd

/-- The packet whose line is written and whose callback has not returned. -/
def ReadPc.pending : ReadPc → Option (Frame × Int)
  | .dump4 f appid _ => some (f, appid)
  | .dump3 f appid _ => some (f, appid)
  | .dump f appid _ => some (f, appid)
  | _ => none

/-- The capture ended. -/
def ReadPc.atEnd : ReadPc → Bool
  | .ended => true
  | _ => false

/-- The thread that is at its end has ended. -/
theorem ReadPc.eq_ended_of_atEnd {pc : ReadPc} (h : pc.atEnd = true) : pc = .ended := by
  cases pc <;> first | rfl | cases h

/-- `dump_packet` returns early: a packet whose id was computed and written meets
the stop flag. -/
def stoppedDump (a : LogAct) (s : LogState) : Bool :=
  match a, s.pc with
  | .capture .ok, .dump4 _ _ _ => s.exitFlag = 4
  | .capture .ok, .dump3 _ _ _ => s.exitFlag = 3
  | _, _ => false

/-- The packets that should have a line: those dumped and the pending one. -/
def LogState.accounted (s : LogState) : List (Frame × Int) := s.dumped ++ s.pc.pending.toList

/-- What one step does to the two files: nothing, one line, or the loss of a
packet whose line is written. A packet that is written was accounted for when
its line was. -/
inductive LogEffect (lost : Bool) (s s' : LogState) : Prop where
  | quiet (kept : lost = false) (lines : s'.appIdLines = s.appIdLines)
      (accounted : s'.accounted = s.accounted)
  | line (kept : lost = false) (p : Frame × Int) (lines : s'.appIdLines = s.appIdLines ++ [p.2])
      (accounted : s'.accounted = s.accounted ++ [p])
  | lost (early : lost = true) (p : Frame × Int) (lines : s'.appIdLines = s.appIdLines)
      (accounted : s.accounted = s'.accounted ++ [p])

/-- A step away from the callback: nothing is pending, nothing is written. -/
structure Quiet (s s' : LogState) : Prop where
  lines : s'.appIdLines = s.appIdLines
  dumped : s'.dumped = s.dumped
  before : s.pc.pending = none
  after : s'.pc.pending = none

/-- A quiet step writes no line. -/
theorem Quiet.effect {a : LogAct} {s s' : LogState} (h : Quiet s s') :
    LogEffect (stoppedDump a s) s s' := by
  refine .quiet ?_ h.lines ?_
  · have hpc := h.before
    unfold stoppedDump
    split
    · rename_i heq
      rw [heq] at hpc
      cases hpc
    · rename_i heq
      rw [heq] at hpc
      cases hpc
    · rfl
  · unfold LogState.accounted
    rw [h.before, h.after, h.dumped]

/-- Looking at a frame is quiet. -/
theorem ringFrame_quiet {s : LogState} (hpc : s.pc.pending = none) (f : Frame) (noRoom : Bool)
    (pkts : ℕ) : Quiet s (ringFrame s f noRoom pkts) := by
  unfold ringFrame
  generalize s.handle.runBpf = r
  rcases r with ⟨run, h⟩
  dsimp only
  split
  · exact ⟨rfl, rfl, hpc, rfl⟩
  · split
    · exact ⟨rfl, rfl, hpc, rfl⟩
    · split
      · exact ⟨rfl, rfl, hpc, rfl⟩
      · exact ⟨rfl, rfl, hpc, rfl⟩

theorem recvFrame_quiet {s : LogState} (hpc : s.pc.pending = none) (f : Frame) (noStamp : Bool) :
    Quiet s (recvFrame s f noStamp) := by
  unfold recvFrame
  split
  · exact ⟨rfl, rfl, hpc, rfl⟩
  · split
    · exact ⟨rfl, rfl, hpc, rfl⟩
    · exact ⟨rfl, rfl, hpc, rfl⟩

/-- Neither branch has a line to write. -/
theorem pending_ite {c : Prop} [Decidable c] {pc pc' : ReadPc} (h : pc.pending = none)
    (h' : pc'.pending = none) : (if c then pc else pc').pending = none := by
  split
  · exact h
  · exact h'

/-- A step of the loop is quiet. -/
theorem loopStep_quiet {opt : Options} {r : Reply} {s s' : LogState}
    (h : loopStep opt r s = some s') : Quiet s s' := by
  unfold loopStep at h
  split at h
  case h_1 t hpc =>
    cases h
    refine ⟨rfl, rfl, by rw [hpc]; rfl, pending_ite rfl ?_⟩
    cases t <;> rfl
  case h_2 n hpc =>
    generalize afterRead opt s.cnt n = res at h
    rcases res with ⟨next, cnt⟩
    cases h
    refine ⟨rfl, rfl, by rw [hpc]; rfl, ?_⟩
    cases next <;> rfl
  case h_3 hpc =>
    cases h
    exact ⟨rfl, rfl, by rw [hpc]; rfl, pending_ite rfl rfl⟩
  case h_4 hpc =>
    cases h
    exact ⟨rfl, rfl, by rw [hpc]; rfl, pending_ite rfl rfl⟩
  case h_5 hpc =>
    split at h
    · cases h
      exact ⟨rfl, rfl, by rw [hpc]; rfl, rfl⟩
    · cases h
      exact ⟨rfl, rfl, by rw [hpc]; rfl, rfl⟩
  case h_6 => cases h

/-- So is a step of `pcap_read_packet`. -/
theorem readPacketStep_quiet {r : Reply} {s s' : LogState}
    (h : readPacketStep r s = some s') : Quiet s s' := by
  unfold readPacketStep at h
  split at h
  case h_1 hpc =>
    split at h
    · cases h
      exact ⟨rfl, rfl, by rw [hpc]; rfl, rfl⟩
    · cases h
  case h_2 hpc =>
    cases h
    exact ⟨rfl, rfl, by rw [hpc]; rfl, pending_ite rfl rfl⟩
  case h_6 f noStamp hpc =>
    cases h
    exact recvFrame_quiet (by rw [hpc]; rfl) f noStamp
  case h_7 => cases h
  all_goals
    rename_i hpc
    cases h
    exact ⟨rfl, rfl, by rw [hpc]; rfl, rfl⟩

/-- So is a step of the ring's read. -/
theorem readMmapStep_quiet {r : Reply} {s s' : LogState}
    (h : readMmapStep r s = some s') : Quiet s s' := by
  unfold readMmapStep at h
  split at h
  -- the tests behind `poll`
  case h_6 hpc =>
    split at h
    · cases h
      exact ⟨rfl, rfl, by rw [hpc]; rfl, rfl⟩
    · split at h
      · cases h
        exact ⟨rfl, rfl, by rw [hpc]; rfl, rfl⟩
      · split at h
        · cases h
          exact ⟨rfl, rfl, by rw [hpc]; rfl, rfl⟩
        · cases h
          exact ⟨rfl, rfl, by rw [hpc]; rfl, pending_ite rfl rfl⟩
  -- at a frame of the ring
  case h_7 pkts hpc =>
    split at h
    · cases h
      exact ⟨rfl, rfl, by rw [hpc]; rfl, rfl⟩
    · split at h
      · cases h
        exact ⟨rfl, rfl, by rw [hpc]; rfl, rfl⟩
      · cases h
        exact ⟨rfl, rfl, by rw [hpc]; rfl, rfl⟩
      · cases h
        exact ringFrame_quiet (by rw [hpc]; rfl) _ _ _
      · cases h
  case h_3 hpc | h_4 hpc | h_5 hpc =>
    cases h
    exact ⟨rfl, rfl, by rw [hpc]; rfl, rfl⟩
  case h_1 hpc | h_2 hpc =>
    split at h
    · cases h
      exact ⟨rfl, rfl, by rw [hpc]; rfl, rfl⟩
    · cases h
  case h_8 hpc =>
    split at h
    · cases h
      exact ⟨rfl, rfl, by rw [hpc]; rfl, rfl⟩
    · cases h
      exact ⟨rfl, rfl, by rw [hpc]; rfl, rfl⟩
  case h_9 => cases h

/-- The line is written before the flag is looked at; a flag that is set then
loses the packet. -/
theorem handPacketStep_effect {r : Reply} {s s' : LogState}
    (h : handPacketStep r s = some s') : LogEffect (stoppedDump (.capture r) s) s s' := by
  unfold handPacketStep at h
  split at h
  case h_1 hpc =>
    apply Quiet.effect
    split at h
    · cases h
      exact ⟨rfl, rfl, by rw [hpc]; rfl, rfl⟩
    · cases h
      exact ⟨rfl, rfl, by rw [hpc]; rfl, rfl⟩
  case h_2 f appid pkts hpc =>
    cases h
    refine .line ?_ (f, appid) rfl ?_
    · simp [stoppedDump, hpc]
    · simp [LogState.accounted, hpc, ReadPc.pending]
  case h_3 f appid pkts hpc =>
    cases h
    -- `dump_packet` returns early under a set flag
    by_cases hflag : s.exitFlag = 4
    · refine .lost ?_ (f, appid) rfl ?_
      · simp [stoppedDump, hpc, hflag]
      · simp [LogState.accounted, hpc, hflag, ReadPc.pending]
    · refine .quiet ?_ rfl ?_
      · simp [stoppedDump, hpc, hflag]
      · simp [LogState.accounted, hpc, hflag, ReadPc.pending]
  case h_4 f appid pkts hpc =>
    cases h
    by_cases hflag : s.exitFlag = 3
    · refine .lost ?_ (f, appid) rfl ?_
      · simp [stoppedDump, hpc, hflag]
      · simp [LogState.accounted, hpc, hflag, ReadPc.pending]
    · refine .quiet ?_ rfl ?_
      · simp [stoppedDump, hpc, hflag]
      · simp [LogState.accounted, hpc, hflag, ReadPc.pending]
  case h_5 f appid pkts hpc =>
    cases h
    refine .quiet ?_ rfl ?_
    · simp [stoppedDump, hpc]
    · simp [LogState.accounted, hpc, ReadPc.pending]
  case h_6 pkts hpc =>
    cases h
    apply Quiet.effect
    refine ⟨rfl, rfl, by rw [hpc]; rfl, ?_⟩
    cases s.handle.readOp <;> rfl
  case h_7 => cases h

/-- Only `dump_packet` under a set flag loses a packet. -/
theorem logStep_effect {opt : Options} {a : LogAct} {s s' : LogState}
    (h : logStep opt a s = some s') : LogEffect (stoppedDump a s) s s' := by
  cases a with
  | capture r =>
      have h : captureStep opt r s = some s' := h
      unfold captureStep at h
      rcases Option.or_eq_some_iff.mp h with hloop | ⟨_, h⟩
      · exact (loopStep_quiet hloop).effect
      · rcases Option.or_eq_some_iff.mp h with hread | ⟨_, h⟩
        · exact (readPacketStep_quiet hread).effect
        · rcases Option.or_eq_some_iff.mp h with hread | ⟨_, hhand⟩
          · exact (readMmapStep_quiet hread).effect
          · exact handPacketStep_effect hhand
  | stop3 =>
      cases h
      exact .quiet rfl rfl rfl
  | stop4 =>
      cases h
      exact .quiet rfl rfl rfl
  | signal =>
      cases h
      exact .quiet rfl rfl rfl

/-- The lines in excess of the packets accounted for do not get fewer. -/
theorem LogEffect.excess_le {early : Bool} {s s' : LogState} (h : LogEffect early s s') :
    s.appIdLines.length + s'.accounted.length ≤ s'.appIdLines.length + s.accounted.length := by
  cases h with
  | quiet _ hlines haccounted =>
      have hlines' := congrArg List.length hlines
      have haccounted' := congrArg List.length haccounted
      omega
  | line _ p hlines haccounted =>
      rw [hlines, haccounted, List.length_append, List.length_append, List.length_singleton,
        List.length_singleton]
      omega
  | lost _ p hlines haccounted =>
      rw [hlines, haccounted, List.length_append, List.length_singleton]
      omega

/-! ## Runs -/

/-- No step of the run is an early return of `dump_packet`. -/
def NoStoppedDump (a : LogAct) (s : LogState) : Prop := stoppedDump a s = false

instance (a : LogAct) (s : LogState) : Decidable (NoStoppedDump a s) :=
  inferInstanceAs (Decidable (_ = _))

/-- The lines are the ids of the packets accounted for. -/
def LinesAccounted (s : LogState) : Prop := s.appIdLines = s.accounted.map Prod.snd

/-- At the start there are no lines. -/
theorem init_linesAccounted {opt : Options} {s : LogState} (h : loggingInit opt s) :
    LinesAccounted s := by
  rcases h with ⟨_, _, _, hpc, hlines, hdumped⟩
  unfold LinesAccounted LogState.accounted
  rw [hpc, hlines, hdumped]
  rfl

/-- Every step accounts for its lines. -/
theorem step_linesAccounted {opt : Options} {a : LogAct} {s s' : LogState}
    (hs : LinesAccounted s) (hok : NoStoppedDump a s) (h : logStep opt a s = some s') :
    LinesAccounted s' := by
  unfold LinesAccounted at hs ⊢
  cases logStep_effect h with
  | quiet _ hlines haccounted => rw [hlines, haccounted, hs]
  | line _ p hlines haccounted => rw [hlines, haccounted, hs, List.map_append, List.map_singleton]
  | lost early _ _ _ =>
      rw [hok] at early
      cases early

/-- There are never fewer lines than packets accounted for. -/
theorem reachable_accounted_le {opt : Options} {s : LogState} (h : (logging opt).Reachable s) :
    s.accounted.length ≤ s.appIdLines.length := by
  refine h.invariant (P := fun s => s.accounted.length ≤ s.appIdLines.length) ?_ ?_
  · intro s hinit
    have hlines : s.appIdLines = s.accounted.map Prod.snd := init_linesAccounted hinit
    have hlength : s.appIdLines.length = s.accounted.length := by rw [hlines, List.length_map]
    exact Nat.le_of_eq hlength.symm
  · intro a s s' hs hstep
    rw [logging_step] at hstep
    have hexcess := (logStep_effect hstep).excess_le
    omega

/-- Once a packet is lost its line stays in excess. -/
theorem steps_excess {opt : Options} {s s' : LogState}
    (hsteps : (logging opt).Steps (fun _ _ => True) s s')
    (hs : s.accounted.length < s.appIdLines.length) :
    s'.accounted.length < s'.appIdLines.length := by
  refine hsteps.preserves (P := fun s => s.accounted.length < s.appIdLines.length) ?_ hs
  intro a u u' hu _ hstep
  rw [logging_step] at hstep
  have hexcess := (logStep_effect hstep).excess_le
  omega

/-- In a capture in which no packet meets the stop flag in `dump_packet` the two
files are aligned whenever no callback is pending, so also when it ended; after
one that does, the files have different lengths for good. -/
theorem aligned_runs (opt : Options) :
    (∀ s, (logging opt).ReachableBy NoStoppedDump s → s.pc.pending = none → Aligned s) ∧
      ∀ a s t s', (logging opt).Reachable s → ¬ NoStoppedDump a s → logStep opt a s = some t →
        (logging opt).Steps (fun _ _ => True) t s' →
        s'.dumped.length < s'.appIdLines.length := by
  refine ⟨fun s hs hpc => ?_, fun a s t s' hs hlost hstep hsteps => ?_⟩
  · have hlines : LinesAccounted s := by
      refine hs.invariant (P := LinesAccounted) ?_ ?_
      · intro s hinit
        exact init_linesAccounted hinit
      · intro a s s' hs hok hstep
        rw [logging_step] at hstep
        exact step_linesAccounted hs hok hstep
    unfold LinesAccounted LogState.accounted at hlines
    rw [hpc, Option.toList_none, List.append_nil] at hlines
    exact hlines
  · have hle := reachable_accounted_le hs
    have hexcess : t.accounted.length < t.appIdLines.length := by
      cases logStep_effect hstep with
      | quiet kept _ _ => exact absurd kept hlost
      | line kept _ _ _ => exact absurd kept hlost
      | lost _ p hlines haccounted =>
          rw [haccounted, List.length_append, List.length_singleton] at hle
          rw [hlines]
          omega
    have hend := steps_excess hsteps hexcess
    unfold LogState.accounted at hend
    rw [List.length_append] at hend
    omega

/-! ## One ARP frame, and a STOP before or after it -/

/-- A socket on one interface without a filter, read by `op`. -/
def Handle.plain (op : ReadOp) : Handle where
  readOp := op
  currentdevice := "rmnet0"
  ifindex := 2
  loIfindex := 1
  sockPacket := false
  direction := .inOut
  cooked := false
  filter := none
  useBpf := 1
  breakLoop := false

/-- An incoming frame with the ether type of ARP. -/
def arpFrame : Frame where
  sp i := if i = 12 then 0x08 else if i = 13 then 0x06 else 0
  tvSec := 100
  ifindex := 2
  outgoing := false

/-- A `/proc` without sockets. -/
def noSockets : ProcFs := ProcFs.ofSockets [] [] []

/-- The capture thread at its first `pcap_loop`. -/
def LogState.initial (op : ReadOp) : LogState where
  exitFlag := 0
  handle := Handle.plain op
  tables := SocketProc.State.started
  cnt := -1
  pc := .loop .outer3
  appIdLines := []
  dumped := []

/-- The thread starts at its first read. -/
theorem init_initial (op : ReadOp) : (logging .live).Init (LogState.initial op) :=
  ⟨⟨fun _ => true, rfl⟩, rfl, rfl, rfl, rfl, rfl⟩

/-- From `pcap_loop` to the point where a frame is awaited. -/
def awaitFrame : List LogAct :=
  [.capture .ok, .capture .ok, .capture .ok, .capture .ok, .capture .ok, .capture .ok]

/-- The frame comes, its id is computed and its line written. -/
def frameLine : List LogAct :=
  [.capture (.frame arpFrame false), .capture (.proc noSockets), .capture .ok]

/-- The frame is dumped, then the STOP comes: one line, one packet. -/
theorem aligned_runs_oneFrame :
    ∃ s, (logging .live).runBy NoStoppedDump
        (awaitFrame ++ frameLine ++ [.capture .ok, .capture .ok, .capture .ok, .stop4])
        (LogState.initial .standard) = some s ∧
      s.appIdLines = [SocketProc.packetArp] ∧ s.pc.pending = none ∧ Aligned s := by
  have hrun : ((logging .live).runBy NoStoppedDump
      (awaitFrame ++ frameLine ++ [.capture .ok, .capture .ok, .capture .ok, .stop4])
      (LogState.initial .standard)).any (fun s =>
        s.appIdLines = [SocketProc.packetArp] ∧ s.pc.pending.isNone) := by decide +kernel
  rcases (Option.any_eq_true _ _).mp hrun with ⟨s, hsteps, hs⟩
  rcases of_decide_eq_true hs with ⟨hlines, hpc⟩
  have hpc : s.pc.pending = none := Option.isNone_iff_eq_none.mp hpc
  have hreach : (logging .live).ReachableBy NoStoppedDump s :=
    ⟨_, init_initial .standard, Lib.System.steps_of_runBy hsteps⟩
  exact ⟨s, hsteps, hlines, hpc, (aligned_runs .live).1 s hreach hpc⟩

/-- The STOP comes while the frame is awaited: the loop ends with one line and
no packet. -/
theorem not_aligned_stop_before_frame :
    ¬ ∀ (opt : Options) (s : LogState), (logging opt).Reachable s → s.pc = .ended →
      s.appIdLines.length = s.dumped.length ∧
        ∀ (i : ℕ) (p : Frame × Int), s.dumped[i]? = some p →
          s.appIdLines[i]? = some p.2 := by
  intro hall
  have hrun : ((logging .live).run (awaitFrame ++ [.stop4] ++ frameLine ++
      [.capture .ok, .capture .ok, .capture .ok, .capture .ok, .capture .ok, .capture .ok])
      (LogState.initial .standard)).any (fun s =>
        s.appIdLines.length = 1 ∧ s.dumped.length = 0 ∧ s.pc.atEnd) := by decide +kernel
  rcases (Option.any_eq_true _ _).mp hrun with ⟨s, hsteps, hs⟩
  rcases of_decide_eq_true hs with ⟨hlines, hdumped, hpc⟩
  have hend := hall .live s (Lib.System.reachable_of_run (init_initial .standard) hsteps)
    (ReadPc.eq_ended_of_atEnd hpc)
  omega

end MobiPerf.Capture
