import Mathlib.Tactic.Common
import MobiPerf.Lib.Transition

/-!
# Capture.ExitFlag — three threads and the stop flag

`exitFlag` is shared by the capture loop of `tcpdumpstartcapture`, the thread
that reads input devices (`CaptureUserInput`) and the thread that waits for a
STOP connection (`start_server_socket`). Each thread is a program counter; each
of its steps reads or writes the flag at most once. What a thread asks of the
system (a read, `select`, `accept`) is answered by the label of the step.

Left out, as no test of it reaches the flag: what the packet callbacks read
(they decide whether a packet is dumped), and the joins before the process
ends.
-/

namespace MobiPerf.Capture

/-! ## Program counters -/

/-- The flag tests of `pcap_loop`: two at the top of the loop, two before each
read operation. -/
inductive LoopTest where
  | outer3
  | outer4
  | inner3
  | inner4
deriving DecidableEq, Repr

/-- The value a test looks for. -/
def LoopTest.value : LoopTest → ℕ
  | .outer3 => 3
  | .outer4 => 4
  | .inner3 => 3
  | .inner4 => 4

/-- `tcpdumpstartcapture`. -/
inductive MainPc where
  /-- before `exitFlag = 0` in `StartCapture` -/
  | starting
  /-- after it: the files and the device are opened -/
  | opening
  | loop (t : LoopTest)
  /-- in the read operation -/
  | reading
  /-- `if(exitFlag ==4 || exitFlag==3)`, its two reads -/
  | exitTest4
  | exitTest3
  /-- the `else` branch: `++bearerChangedvalue` -/
  | bearer
  /-- the sleep and the closing before the next activation -/
  | closing
  | terminating
  | exited
deriving DecidableEq, Repr

/-- `start_server_socket` and `dostuff`. -/
inductive ServerPc where
  | notCreated
  | binding
  | accepting
  | write3
  | replying
  | write4
  | closed
deriving DecidableEq, Repr

/-- `CaptureUserInput` and `HandleEvents`; `depth` counts the calls
`HandleEvents` makes to itself after a failed `select`. -/
inductive UserPc where
  | setup
  /-- the test at the start of `HandleEvents` -/
  | handle (depth : ℕ)
  | select (depth : ℕ)
  /-- the loop over events and key entries, before its test -/
  | scan (depth : ℕ)
  /-- a matching entry, before the second test -/
  | matching (depth : ℕ)
  /-- the release of the volume key -/
  | release (depth : ℕ)
  /-- `exitFlag = 3; return 0` -/
  | write3 (depth : ℕ)
  /-- the test after `HandleEvents` returned 1 -/
  | afterHandle
  /-- `exitFlag = 3; break` -/
  | writeLast
  | finished
deriving DecidableEq, Repr

/-- The shared variables, where each thread is, and two records for the
statements: whether the STOP was handled and how often `StartCapture` ran. -/
structure State where
  exitFlag : ℕ
  bearerChangedvalue : ℕ
  isBearerChange : Bool
  /-- packets `pcap_loop` has still to read -/
  cnt : Int
  main : MainPc
  server : ServerPc
  user : UserPc
  stopHandled : Bool
  starts : ℕ
deriving DecidableEq, Repr

/-- What the system answers: a call succeeded, a call failed, a read operation
returned `n`, `select` timed out, a key event matched or did not, or there are
no events left. -/
inductive Io where
  | ok
  | fails
  | returns (n : Int)
  | timeout
  | entry (isMatch : Bool)
  | key (isRelease : Bool)
  | noMoreEvents
deriving DecidableEq, Repr

/-- One step of one thread. -/
inductive Act where
  | main (io : Io)
  | server (io : Io)
  | user (io : Io)
deriving DecidableEq, Repr

/-- The options of the process: the packet count of `-c`, and whether a file is
read instead of a device. -/
structure Options where
  cnt : Int
  offline : Bool

/-! ## Steps -/

/-- The test after one that did not fire; after the last the read operation is
called. -/
def LoopTest.next : LoopTest → Option LoopTest
  | .outer3 => some .outer4
  | .outer4 => some .inner3
  | .inner3 => some .inner4
  | .inner4 => none

/-- `pcap_loop` after its read operation returned `n` with `cnt` packets to go:
the test it goes on with (`none` when it returns) and the packets to go. -/
def afterRead (opt : Options) (cnt n : Int) : Option LoopTest × Int :=
  if n = 0 ∧ opt.offline = false then (some .inner3, cnt)
  else if n ≤ 0 then (none, cnt)
  else if 0 < cnt then
    if cnt - n ≤ 0 then (none, cnt - n) else (some .outer3, cnt - n)
  else (some .outer3, cnt)

/-- The capture thread. -/
def mainStep (opt : Options) (io : Io) (s : State) : Option State :=
  match s.main, io with
  | .starting, .ok => some { s with exitFlag := 0, starts := s.starts + 1, main := .opening }
  | .opening, .ok =>
    -- the server thread is created by the first activation only
    some { s with
      server := if s.isBearerChange then s.server else .binding
      cnt := opt.cnt
      main := .loop .outer3 }
  | .opening, .fails => some { s with main := .exited }
  | .loop t, .ok =>
    some { s with
      main := if s.exitFlag = t.value then .exitTest4 else t.next.elim .reading .loop }
  | .reading, .ok =>
    -- the test inside the read operation: 3 makes it return an error
    some { s with main := if s.exitFlag = 3 then .exitTest4 else .reading }
  | .reading, .returns n =>
    let (next, cnt) := afterRead opt s.cnt n
    some { s with cnt := cnt, main := next.elim .exitTest4 .loop }
  | .exitTest4, .ok =>
    some { s with main := if s.exitFlag = 4 then .terminating else .exitTest3 }
  | .exitTest3, .ok =>
    some { s with main := if s.exitFlag = 3 then .terminating else .bearer }
  | .bearer, .ok =>
    some { s with bearerChangedvalue := s.bearerChangedvalue + 1, main := .closing }
  | .closing, .ok => some { s with isBearerChange := true, main := .starting }
  | .terminating, .ok => some { s with main := .exited }
  | _, _ => none

/-- The server thread; it serves one connection. -/
def serverStep (io : Io) (s : State) : Option State :=
  match s.server, io with
  | .binding, .ok => some { s with server := .accepting }
  | .binding, .fails => some { s with main := .exited }
  | .accepting, .ok => some { s with server := .write3 }
  | .accepting, .fails =>
    if 0 < s.bearerChangedvalue then some s else some { s with main := .exited }
  | .write3, .ok => some { s with exitFlag := 3, server := .replying }
  | .replying, .ok => some { s with server := .write4 }
  | .replying, .fails => some { s with main := .exited }
  | .write4, .ok => some { s with exitFlag := 4, stopHandled := true, server := .closed }
  | _, _ => none

/-- `HandleEvents` returned 0: an inner call's result is not looked at. -/
def returned0 : ℕ → UserPc
  | 0 => .writeLast
  | depth + 1 => .scan depth

/-- `HandleEvents` returned 1. -/
def returned1 : ℕ → UserPc
  | 0 => .afterHandle
  | depth + 1 => .scan depth

/-- The input thread. -/
def userStep (io : Io) (s : State) : Option State :=
  match s.user, io with
  | .setup, .ok => some { s with user := .handle 0 }
  | .setup, .fails => some { s with main := .exited }
  | .handle d, .ok => some { s with user := if s.exitFlag = 4 then .write3 d else .select d }
  | .select d, .timeout => some { s with user := returned1 d }
  | .select d, .ok => some { s with user := .scan d }
  | .select d, .fails =>
    if 0 < s.bearerChangedvalue then some { s with user := .handle (d + 1) }
    else some { s with main := .exited }
  | .scan d, .entry isMatch =>
    some { s with
      user := if s.exitFlag = 4 then .write3 d else if isMatch then .matching d else .scan d }
  | .scan d, .noMoreEvents => some { s with user := returned1 d }
  | .matching d, .key isRelease =>
    some { s with
      user := if s.exitFlag = 4 then .write3 d else if isRelease then .release d else .scan d }
  | .release d, .ok =>
    some { s with user := if s.exitFlag = 3 then returned0 d else .scan d }
  | .write3 d, .ok => some { s with exitFlag := 3, user := returned0 d }
  | .afterHandle, .ok =>
    some { s with user := if s.exitFlag = 4 then .writeLast else .handle 0 }
  | .writeLast, .ok => some { s with exitFlag := 3, user := .finished }
  | _, _ => none

/-- One step of one thread, as long as the process lives. -/
def step (opt : Options) (a : Act) (s : State) : Option State :=
  if s.main = .exited then none
  else
    match a with
    | .main io => mainStep opt io s
    | .server io => serverStep io s
    | .user io => userStep io s

/-- The process when `main` calls `tcpdumpstartcapture(0)` and has created the
input thread. -/
def State.initial : State where
  exitFlag := 0
  bearerChangedvalue := 0
  isBearerChange := false
  cnt := 0
  main := .starting
  server := .notCreated
  user := .setup
  stopHandled := false
  starts := 0

/-- The interleavings of the three threads. -/
def capture (opt : Options) : Lib.System State Act where
  Init s := s = State.initial
  step := step opt

theorem capture_step (opt : Options) : (capture opt).step = step opt := rfl

/-! ## What a step of each thread can do -/

/-- From the `else` branch to the reset of the flag: a restart under way. -/
def MainPc.Restarting (pc : MainPc) : Prop :=
  pc = .bearer ∨ pc = .closing ∨ pc = .starting

instance (pc : MainPc) : Decidable pc.Restarting :=
  inferInstanceAs (Decidable (_ ∨ _))

/-- A step of the capture thread. It writes the flag, and counts a start, at the
end of a restart only; a restart begins only where the second exit test does
not read 3. -/
structure MainEffect (s s' : State) : Prop where
  stopHandled : s'.stopHandled = s.stopHandled
  flag : (s'.exitFlag = s.exitFlag ∧ s'.starts = s.starts) ∨
    (s.main = .starting ∧ s'.exitFlag = 0)
  restart : s'.main.Restarting → s.main.Restarting ∨ (s.main = .exitTest3 ∧ s.exitFlag ≠ 3)
  server : s'.server = s.server ∨ (s.main = .opening ∧ s.isBearerChange = false)
  bearer : s.isBearerChange = true → s'.isBearerChange = true
  starting : s'.main = .starting → s'.isBearerChange = true
  opening : s'.main = .opening → s.main = .starting

/-- A step of the server thread. Only its last one handles the STOP. -/
structure ServerEffect (s s' : State) : Prop where
  starts : s'.starts = s.starts
  bearer : s'.isBearerChange = s.isBearerChange
  main : s'.main = s.main ∨ s'.main = .exited
  created : s.server ≠ .notCreated
  running : s.server ≠ .closed
  flag : (s'.stopHandled = s.stopHandled ∧ (s'.exitFlag = s.exitFlag ∨ s'.exitFlag = 3)) ∨
    (s.server = .write4 ∧ s'.server = .closed ∧ s'.main = s.main ∧
      s'.stopHandled = true ∧ s'.exitFlag = 4)

/-- A step of the input thread, which can only write 3. -/
structure UserEffect (s s' : State) : Prop where
  starts : s'.starts = s.starts
  bearer : s'.isBearerChange = s.isBearerChange
  server : s'.server = s.server
  main : s'.main = s.main ∨ s'.main = .exited
  stopHandled : s'.stopHandled = s.stopHandled
  flag : s'.exitFlag = s.exitFlag ∨ s'.exitFlag = 3

/-- A step that only moves the thread on, to no restart and no new activation. -/
theorem mainEffect_of_move {s : State} {pc : MainPc} (cnt : Int) (hrestart : ¬ pc.Restarting)
    (hopening : pc ≠ .opening) : MainEffect s { s with cnt := cnt, main := pc } where
  stopHandled := rfl
  flag := Or.inl ⟨rfl, rfl⟩
  restart := fun h => absurd h hrestart
  server := Or.inl rfl
  bearer := id
  starting := fun h => absurd (Or.inr (Or.inr h)) hrestart
  opening := fun h => absurd h hopening

theorem mainStep_effect {opt : Options} {io : Io} {s s' : State}
    (h : mainStep opt io s = some s') : MainEffect s s' := by
  unfold mainStep at h
  split at h
  case h_1 hmain =>
    -- `exitFlag = 0`
    cases h
    exact ⟨rfl, Or.inr ⟨hmain, rfl⟩, by simp [MainPc.Restarting], Or.inl rfl, id, by simp,
      fun _ => hmain⟩
  case h_2 hmain =>
    cases h
    refine ⟨rfl, Or.inl ⟨rfl, rfl⟩, by simp [MainPc.Restarting], ?_, id, by simp, by simp⟩
    cases hbearer : s.isBearerChange with
    | true => exact Or.inl (by simp)
    | false => exact Or.inr ⟨hmain, rfl⟩
  case h_3 =>
    cases h
    exact mainEffect_of_move s.cnt (by decide) (by decide)
  case h_4 t hmain =>
    cases h
    refine mainEffect_of_move s.cnt ?_ ?_
    · cases t <;> split <;> decide
    · cases t <;> split <;> decide
  case h_5 =>
    cases h
    refine mainEffect_of_move s.cnt ?_ ?_
    · split <;> decide
    · split <;> decide
  case h_6 n hmain =>
    generalize afterRead opt s.cnt n = r at h
    rcases r with ⟨next, cnt⟩
    cases h
    refine mainEffect_of_move cnt ?_ ?_
    · cases next <;> simp [MainPc.Restarting]
    · cases next <;> simp
  case h_7 =>
    cases h
    refine mainEffect_of_move s.cnt ?_ ?_
    · split <;> decide
    · split <;> decide
  case h_8 hmain =>
    -- the second exit test: anything but 3 begins a restart
    cases h
    refine ⟨rfl, Or.inl ⟨rfl, rfl⟩, fun h => Or.inr ⟨hmain, fun hflag => ?_⟩, Or.inl rfl, id, ?_,
      ?_⟩
    · simp [MainPc.Restarting, hflag] at h
    · split <;> simp
    · split <;> simp
  case h_9 hmain =>
    cases h
    exact ⟨rfl, Or.inl ⟨rfl, rfl⟩, fun _ => Or.inl (Or.inl hmain), Or.inl rfl, id, by simp,
      by simp⟩
  case h_10 hmain =>
    cases h
    exact ⟨rfl, Or.inl ⟨rfl, rfl⟩, fun _ => Or.inl (Or.inr (Or.inl hmain)), Or.inl rfl,
      fun _ => rfl, fun _ => rfl, by simp⟩
  case h_11 =>
    cases h
    exact mainEffect_of_move s.cnt (by decide) (by decide)
  case h_12 => cases h

theorem serverStep_effect {io : Io} {s s' : State} (h : serverStep io s = some s') :
    ServerEffect s s' := by
  unfold serverStep at h
  split at h
  case h_4 hserver =>
    -- `accept` failed: tried again after a bearer change, else the process ends
    split at h
    · cases h
      exact ⟨rfl, rfl, Or.inl rfl, by simp [hserver], by simp [hserver], Or.inl ⟨rfl, Or.inl rfl⟩⟩
    · cases h
      exact ⟨rfl, rfl, Or.inr rfl, by simp [hserver], by simp [hserver], Or.inl ⟨rfl, Or.inl rfl⟩⟩
  case h_5 hserver =>
    cases h
    exact ⟨rfl, rfl, Or.inl rfl, by simp [hserver], by simp [hserver], Or.inl ⟨rfl, Or.inr rfl⟩⟩
  case h_8 hserver =>
    cases h
    exact ⟨rfl, rfl, Or.inl rfl, by simp [hserver], by simp [hserver],
      Or.inr ⟨hserver, rfl, rfl, rfl, rfl⟩⟩
  case h_9 => cases h
  all_goals
    rename_i hserver
    cases h
    refine ⟨rfl, rfl, ?_, by simp [hserver], by simp [hserver], Or.inl ⟨rfl, Or.inl rfl⟩⟩
    simp

theorem userStep_effect {io : Io} {s s' : State} (h : userStep io s = some s') :
    UserEffect s s' := by
  unfold userStep at h
  split at h
  case h_6 =>
    split at h
    · cases h
      exact ⟨rfl, rfl, rfl, Or.inl rfl, rfl, Or.inl rfl⟩
    · cases h
      exact ⟨rfl, rfl, rfl, Or.inr rfl, rfl, Or.inl rfl⟩
  case h_14 => cases h
  all_goals
    cases h
    exact ⟨rfl, rfl, rfl, by simp, rfl, by simp⟩

/-- One step of the process is one of a thread. -/
theorem step_cases {opt : Options} {a : Act} {s s' : State} (h : step opt a s = some s') :
    s.main ≠ .exited ∧
      ((∃ io, a = .main io ∧ MainEffect s s') ∨ (∃ io, a = .server io ∧ ServerEffect s s') ∨
        ∃ io, a = .user io ∧ UserEffect s s') := by
  unfold step at h
  split at h
  · cases h
  · rename_i hlive
    refine ⟨hlive, ?_⟩
    cases a with
    | main io => exact Or.inl ⟨io, rfl, mainStep_effect h⟩
    | server io => exact Or.inr (Or.inl ⟨io, rfl, serverStep_effect h⟩)
    | user io => exact Or.inr (Or.inr ⟨io, rfl, userStep_effect h⟩)

/-! ## Invariants of all runs -/

/-- The server thread exists before an activation opens its device only in a
restarted one, and the value 4 comes from a STOP that was handled. -/
structure Coherent (s : State) : Prop where
  created : s.server ≠ .notCreated → s.main = .starting ∨ s.main = .opening →
    s.isBearerChange = true
  handled : s.exitFlag = 4 → s.stopHandled = true

theorem step_coherent {opt : Options} {a : Act} {s s' : State} (hs : Coherent s)
    (h : step opt a s = some s') : Coherent s' := by
  rcases step_cases h with ⟨hlive, ⟨_, _, heff⟩ | ⟨_, _, heff⟩ | ⟨_, _, heff⟩⟩
  · -- the capture thread
    refine ⟨fun hserver hmain => ?_, fun hflag => ?_⟩
    · rcases hmain with hmain | hmain
      · exact heff.starting hmain
      · have hstarting := heff.opening hmain
        have hsame : s'.server = s.server := by
          rcases heff.server with hsame | ⟨hopening, _⟩
          · exact hsame
          · rw [hstarting] at hopening
            cases hopening
        rw [hsame] at hserver
        exact heff.bearer (hs.created hserver (Or.inl hstarting))
    · rw [heff.stopHandled]
      rcases heff.flag with ⟨hsame, _⟩ | ⟨_, hzero⟩
      · exact hs.handled (hsame ▸ hflag)
      · rw [hzero] at hflag
        cases hflag
  · -- the server thread
    refine ⟨fun _ hmain => ?_, fun hflag => ?_⟩
    · rw [heff.bearer]
      refine hs.created heff.created ?_
      rcases heff.main with hsame | hexited
      · rwa [hsame] at hmain
      · rw [hexited] at hmain
        rcases hmain with hmain | hmain <;> cases hmain
    · rcases heff.flag with ⟨hstop, hsame | hthree⟩ | ⟨_, _, _, hstop, _⟩
      · rw [hstop]
        exact hs.handled (hsame ▸ hflag)
      · rw [hthree] at hflag
        cases hflag
      · exact hstop
  · -- the input thread
    refine ⟨fun hserver hmain => ?_, fun hflag => ?_⟩
    · rw [heff.bearer]
      rw [heff.server] at hserver
      refine hs.created hserver ?_
      rcases heff.main with hsame | hexited
      · rwa [hsame] at hmain
      · rw [hexited] at hmain
        rcases hmain with hmain | hmain <;> cases hmain
    · rw [heff.stopHandled]
      rcases heff.flag with hsame | hthree
      · exact hs.handled (hsame ▸ hflag)
      · rw [hthree] at hflag
        cases hflag

theorem reachable_coherent {opt : Options} {s : State} (h : (capture opt).Reachable s) :
    Coherent s := by
  refine h.invariant ?_ (fun a s s' hs hstep => ?_)
  · rintro s rfl
    exact ⟨fun h => absurd rfl h, by simp [State.initial]⟩
  · rw [capture_step] at hstep
    exact step_coherent hs hstep

/-! ## The windows in which a STOP is lost -/

/-- The two steps that lose a STOP: the second exit test reads 4, which the
first one did not yet see, or the server writes 4 while a restart is under way. -/
def StopWindow (a : Act) (s : State) : Prop :=
  (a = .main .ok ∧ s.main = .exitTest3 ∧ s.exitFlag = 4) ∨
    (a = .server .ok ∧ s.server = .write4 ∧ s.main.Restarting)

instance (a : Act) (s : State) : Decidable (StopWindow a s) :=
  inferInstanceAs (Decidable (_ ∨ _))

/-- A step outside both windows. -/
def OutsideWindow (a : Act) (s : State) : Prop := ¬ StopWindow a s

instance (a : Act) (s : State) : Decidable (OutsideWindow a s) :=
  inferInstanceAs (Decidable (¬ _))

/-- The STOP that was handled is still there to be seen: the flag is 3 or 4, no
restart is under way, and the server writes no more. -/
structure StopKept (s : State) : Prop where
  flag : s.exitFlag = 3 ∨ s.exitFlag = 4
  main : ¬ s.main.Restarting
  bearer : s.main = .opening → s.isBearerChange = true
  server : s.server = .closed

/-- The server's last step, outside the windows, begins a kept STOP. -/
theorem stopKept_of_write4 {opt : Options} {a : Act} {s s' : State} (hs : Coherent s)
    (hok : OutsideWindow a s) (h : step opt a s = some s') (hbefore : s.stopHandled = false)
    (hafter : s'.stopHandled = true) : StopKept s' := by
  rcases step_cases h with ⟨hlive, ⟨_, _, heff⟩ | ⟨io, rfl, heff⟩ | ⟨_, _, heff⟩⟩
  · rw [heff.stopHandled, hbefore] at hafter
    cases hafter
  · rcases heff.flag with ⟨hsame, _⟩ | ⟨hwrite, hclosed, hmain, _, hfour⟩
    · rw [hsame, hbefore] at hafter
      cases hafter
    · have hio : io = .ok := by
        rw [step, if_neg hlive] at h
        simp only [serverStep, hwrite] at h
        split at h <;> simp_all
      refine ⟨Or.inr hfour, ?_, fun hopening => ?_, hclosed⟩
      · rw [hmain]
        exact fun hrestarting => hok (Or.inr ⟨by rw [hio], hwrite, hrestarting⟩)
      · rw [hmain] at hopening
        rw [heff.bearer]
        exact hs.created (by simp [hwrite]) (Or.inr hopening)
  · rw [heff.stopHandled, hbefore] at hafter
    cases hafter

/-- A step outside the windows keeps a kept STOP, and starts no capture. -/
theorem step_stopKept {opt : Options} {a : Act} {s s' : State} (hs : StopKept s)
    (hok : OutsideWindow a s) (h : step opt a s = some s') :
    StopKept s' ∧ s'.starts = s.starts := by
  rcases step_cases h with ⟨hlive, ⟨io, rfl, heff⟩ | ⟨_, _, heff⟩ | ⟨_, _, heff⟩⟩
  · -- the capture thread neither ends a restart nor begins one
    have hnot : s.main ≠ .starting := fun hmain => hs.main (Or.inr (Or.inr hmain))
    rcases heff.flag.resolve_right fun hreset => hnot hreset.1 with ⟨hflag, hstarts⟩
    refine ⟨⟨by rw [hflag]; exact hs.flag, fun hrestarting => ?_, fun hopening => ?_, ?_⟩, hstarts⟩
    · rcases (heff.restart hrestarting).resolve_left hs.main with ⟨htest, hne⟩
      -- the second exit test reads 3: reading 4 is a window, and no other value is left
      have hio : io = .ok := by
        rw [step, if_neg hlive] at h
        simp only [mainStep, htest] at h
        split at h <;> simp_all
      exact hok (Or.inl ⟨by rw [hio], htest, hs.flag.resolve_left hne⟩)
    · exact absurd (heff.opening hopening) hnot
    · rcases heff.server with hsame | ⟨hopening, hfirst⟩
      · rw [hsame]
        exact hs.server
      · rw [hs.bearer hopening] at hfirst
        cases hfirst
  · exact absurd hs.server heff.running
  · -- the input thread writes 3 at most
    refine ⟨⟨?_, fun hrestarting => ?_, fun hopening => ?_, ?_⟩, heff.starts⟩
    · rcases heff.flag with hsame | hthree
      · rw [hsame]
        exact hs.flag
      · exact Or.inl hthree
    · rcases heff.main with hsame | hexited
      · rw [hsame] at hrestarting
        exact hs.main hrestarting
      · rw [hexited] at hrestarting
        exact absurd hrestarting (by decide)
    · rcases heff.main with hsame | hexited
      · rw [heff.bearer]
        rw [hsame] at hopening
        exact hs.bearer hopening
      · rw [hexited] at hopening
        cases hopening
    · rw [heff.server]
      exact hs.server

/-- Along a run outside the windows a handled STOP is kept. -/
theorem reachable_stopKept {opt : Options} {s : State}
    (h : (capture opt).ReachableBy OutsideWindow s) (hstop : s.stopHandled = true) :
    StopKept s := by
  have hinv : Coherent s ∧ (s.stopHandled = true → StopKept s) := by
    refine h.invariant (P := fun s => Coherent s ∧ (s.stopHandled = true → StopKept s)) ?_ ?_
    · rintro s rfl
      exact ⟨⟨fun h => absurd rfl h, by simp [State.initial]⟩, by simp [State.initial]⟩
    · rintro a s s' ⟨hcoherent, hkept⟩ hok hstep
      rw [capture_step] at hstep
      refine ⟨step_coherent hcoherent hstep, fun hafter => ?_⟩
      cases hbefore : s.stopHandled with
      | true => exact (step_stopKept (hkept hbefore) hok hstep).1
      | false => exact stopKept_of_write4 hcoherent hok hstep hbefore hafter
  exact hinv.2 hstop

/-- A restart under way ends, when the capture thread runs alone, in a reset
flag and a new start. -/
theorem restart_resets (opt : Options) {s : State} (h : s.main.Restarting) :
    ∃ s', (capture opt).Steps (fun _ _ => True) s s' ∧ s'.stopHandled = s.stopHandled ∧
      s'.exitFlag = 0 ∧ s'.starts = s.starts + 1 := by
  have hrun : ∃ acts s', (capture opt).run acts s = some s' ∧ s'.stopHandled = s.stopHandled ∧
      s'.exitFlag = 0 ∧ s'.starts = s.starts + 1 := by
    rcases h with hmain | hmain | hmain
    · refine ⟨[.main .ok, .main .ok, .main .ok], ?_⟩
      simp [Lib.System.run, Lib.System.runBy, capture_step, step, mainStep, hmain]
    · refine ⟨[.main .ok, .main .ok], ?_⟩
      simp [Lib.System.run, Lib.System.runBy, capture_step, step, mainStep, hmain]
    · refine ⟨[.main .ok], ?_⟩
      simp [Lib.System.run, Lib.System.runBy, capture_step, step, mainStep, hmain]
  rcases hrun with ⟨acts, s', hacts, heq⟩
  exact ⟨s', Lib.System.steps_of_run hacts, heq⟩

/-- In every run outside the two windows, once the STOP is handled the flag
never returns to 0 and no capture is started or restarted; and from a step in a
window the run can go on to a reset flag and a new start, with the STOP handled. -/
theorem stop_kept_runs (opt : Options) :
    (∀ s s', (capture opt).ReachableBy OutsideWindow s → s.stopHandled = true →
      (capture opt).Steps OutsideWindow s s' →
      s'.exitFlag ≠ 0 ∧ s'.starts = s.starts ∧ ¬ s'.main.Restarting) ∧
    ∀ a s t, (capture opt).Reachable s → StopWindow a s → step opt a s = some t →
      ∃ s', (capture opt).Steps (fun _ _ => True) t s' ∧ s'.stopHandled = true ∧
        s'.exitFlag = 0 ∧ s'.starts = t.starts + 1 := by
  refine ⟨fun s s' hs hstop hsteps => ?_, fun a s t hs hwindow hstep => ?_⟩
  · have hkept := reachable_stopKept hs hstop
    have hrun : StopKept s' ∧ s'.starts = s.starts := by
      refine hsteps.preserves (P := fun u => StopKept u ∧ u.starts = s.starts) ?_ ⟨hkept, rfl⟩
      rintro a u u' ⟨hu, hstarts⟩ hok hnext
      rw [capture_step] at hnext
      rcases step_stopKept hu hok hnext with ⟨hu', hstarts'⟩
      exact ⟨hu', hstarts'.trans hstarts⟩
    refine ⟨?_, hrun.2, hrun.1.main⟩
    rcases hrun.1.flag with hflag | hflag <;> omega
  · have hcoherent := reachable_coherent hs
    rcases hwindow with ⟨rfl, hmain, hflag⟩ | ⟨rfl, hserver, hmain⟩
    · -- the flag is 4 and the test for 3 fails: the `else` branch
      have ht : t.main.Restarting ∧ t.stopHandled = s.stopHandled := by
        simp only [step, mainStep, hmain, hflag] at hstep
        cases hstep
        exact ⟨Or.inl rfl, rfl⟩
      rcases restart_resets opt ht.1 with ⟨s', hsteps, hstop, hreset⟩
      exact ⟨s', hsteps, by rw [hstop, ht.2, hcoherent.handled hflag], hreset⟩
    · have ht : t.main.Restarting ∧ t.stopHandled = true := by
        have hlive : s.main ≠ .exited := by
          rcases hmain with h | h | h <;> simp [h]
        rw [step, if_neg hlive] at hstep
        simp only [serverStep, hserver] at hstep
        cases hstep
        exact ⟨hmain, rfl⟩
      rcases restart_resets opt ht.1 with ⟨s', hsteps, hstop, hreset⟩
      exact ⟨s', hsteps, by rw [hstop, ht.2], hreset⟩

/-! ## Two schedules -/

/-- A live capture without a packet limit. -/
def Options.live : Options := ⟨-1, false⟩

/-- The first activation up to its first read. -/
def untilReading : List Act :=
  [.main .ok, .main .ok, .main .ok, .main .ok, .main .ok, .main .ok]

/-- A STOP connection, from `bind` to the second write. -/
def stopConnection : List Act :=
  [.server .ok, .server .ok, .server .ok, .server .ok, .server .ok]

/-- A STOP that comes while a read is under way is kept until the end. -/
theorem stop_kept_runs_reading :
    ∃ s s', (capture .live).runBy OutsideWindow (untilReading ++ stopConnection)
        State.initial = some s ∧ s.stopHandled = true ∧
      (capture .live).runBy OutsideWindow
        [.main (.returns 1), .main .ok, .main .ok, .main .ok] s = some s' ∧
      s'.main = .terminating ∧ s'.exitFlag ≠ 0 ∧ s'.starts = s.starts ∧
      ¬ s'.main.Restarting := by
  have hrun : ((capture .live).runBy OutsideWindow (untilReading ++ stopConnection)
      State.initial).any (fun s => s.stopHandled = true ∧
        ((capture .live).runBy OutsideWindow
          [.main (.returns 1), .main .ok, .main .ok, .main .ok] s).any
          fun s' => s'.main = .terminating) := by decide +kernel
  rcases (Option.any_eq_true _ _).mp hrun with ⟨s, hfirst, hs⟩
  rcases of_decide_eq_true hs with ⟨hstop, hs⟩
  rcases (Option.any_eq_true _ _).mp hs with ⟨s', hrest, hs'⟩
  have hreach : (capture .live).ReachableBy OutsideWindow s :=
    ⟨State.initial, rfl, Lib.System.steps_of_runBy hfirst⟩
  exact ⟨s, s', hfirst, hstop, hrest, of_decide_eq_true hs',
    (stop_kept_runs .live).1 s s' hreach hstop (Lib.System.steps_of_runBy hrest)⟩

/-- The interface goes down; while the capture thread sleeps before the restart
the STOP is handled, and the restart resets the flag. -/
theorem not_stop_kept_in_restart :
    ¬ ∀ (opt : Options) (s s' : State), (capture opt).Reachable s → s.stopHandled = true →
      (capture opt).Steps (fun _ _ => True) s s' →
      s'.exitFlag ≠ 0 ∧ s'.starts = s.starts := by
  intro hall
  have hrun : ((capture .live).run (untilReading ++
      [.main (.returns (-1)), .main .ok, .main .ok, .main .ok] ++ stopConnection)
      State.initial).any (fun s => s.stopHandled = true ∧
        ((capture .live).run [.main .ok, .main .ok] s).any fun s' => s'.exitFlag = 0) := by
    decide +kernel
  rcases (Option.any_eq_true _ _).mp hrun with ⟨s, hfirst, hs⟩
  rcases of_decide_eq_true hs with ⟨hstop, hs⟩
  rcases (Option.any_eq_true _ _).mp hs with ⟨s', hrest, hs'⟩
  exact (hall .live s s' (Lib.System.reachable_of_run rfl hfirst) hstop
    (Lib.System.steps_of_run hrest)).1 (of_decide_eq_true hs')

end MobiPerf.Capture
