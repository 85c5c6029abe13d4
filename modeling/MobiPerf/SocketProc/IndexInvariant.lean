import MobiPerf.SocketProc.Packet

/-!
# SocketProc.IndexInvariant — what the index tables say, over whole runs

In every reachable state the indexes can be undone through their set lists, and
either they describe the table or the table is empty (`TablesOk`). The second
case is what a bearer-change restart leaves behind: it empties the table and
keeps the indexes. Without such a restart of a table in use the indexes
describe the table at every return.
-/

namespace MobiPerf.SocketProc

/-! ## The two calls of a run -/

/-- The state invariant of all runs. -/
structure TablesOk (L : Limits) (s : State) : Prop where
  nConns_le : s.nConns ≤ L.conns
  undoable : Undoable s
  indexed : Indexed s ∨ s.nConns = 0

/-- Using an entry keeps the invariant: neither the indexes nor the number of
entries change. -/
theorem touchConn_tablesOk {L : Limits} {s : State} (h : TablesOk L s) (i : ℕ) (curSec : Int) :
    TablesOk L (touchConn i curSec s) where
  nConns_le := h.nConns_le
  undoable := h.undoable
  indexed := h.indexed.imp (touchConn_indexed i curSec) id

/-- A packet keeps the invariant, and keeps indexes that describe the table. -/
theorem updatePacketCore_tablesOk {L : Limits} {fs : ProcFs} {pkt : Packet} {s s' : State}
    {a : Int} (hL : L.conns ≤ 32768) (hs : TablesOk L s)
    (h : updatePacketCore L fs pkt s = .ok (a, s')) :
    TablesOk L s' ∧ (Indexed s → Indexed s') := by
  rcases updatePacketCore_cases h with ⟨i, _, huse⟩ | ⟨s₁, hrefresh, hrest⟩
  · -- a fresh entry: only its time changes
    cases huse
    exact ⟨touchConn_tablesOk hs i _, touchConn_indexed i _⟩
  · obtain ⟨hindexed, hle, _, _⟩ :=
      updateProcessSocketInfo_spec hL hs.nConns_le hs.undoable hrefresh
    have hok : TablesOk L s₁ := ⟨hle, hindexed.undoable, Or.inl hindexed⟩
    rcases hrest with ⟨i, _, huse⟩ | ⟨_, _, rfl⟩
    · cases huse
      exact ⟨touchConn_tablesOk hok i _, fun _ => touchConn_indexed i _ hindexed⟩
    · exact ⟨hok, fun _ => hindexed⟩

/-- The first start leaves an empty table and unused indexes. -/
theorem startCapture_zero {opens : String → Bool} {s : State}
    (h : startCapture opens State.zero = .ok s) :
    s.nConns = 0 ∧ s.port2connid = ConnIndex.unused ∧ s.ip2connid = ConnIndex.unused := by
  rcases startCapture_cases h with ⟨hn, _, ⟨_, hport, hip⟩ | ⟨hbearer, _⟩⟩
  · exact ⟨hn, hport, hip⟩
  · exact absurd rfl hbearer

/-- A restart empties the table and keeps both indexes. -/
theorem startCapture_restart {opens : String → Bool} {s s' : State}
    (h : startCapture opens { s with bearerChangedvalue := s.bearerChangedvalue + 1 } = .ok s') :
    s'.nConns = 0 ∧ s'.port2connid = s.port2connid ∧ s'.ip2connid = s.ip2connid := by
  rcases startCapture_cases h with ⟨hn, _, ⟨hbearer, _⟩ | ⟨_, hport, hip⟩⟩
  · exact absurd hbearer (Nat.succ_ne_zero _)
  · exact ⟨hn, hport, hip⟩

theorem entries_eq_nil {t : ConnTable} (h : t.nConns = 0) : t.entries = [] := by
  unfold ConnTable.entries
  rw [h]
  rfl

/-- On an empty table only unused indexes describe the entries. -/
theorem indexed_of_unused {s : State} (hn : s.nConns = 0)
    (hport : s.port2connid = ConnIndex.unused) (hip : s.ip2connid = ConnIndex.unused) :
    Indexed s where
  port := by
    rw [entries_eq_nil hn, hport]
    exact indexes_unused portKey
  ip := by
    rw [entries_eq_nil hn, hip]
    exact indexes_unused ipKey
  appid := by
    rw [entries_eq_nil hn]
    exact fun c hc => absurd hc List.not_mem_nil

/-- A restart of an empty table keeps indexes that describe it. -/
theorem indexed_of_restart {s s' : State} (hs : Indexed s) (hn : s.nConns = 0)
    (hn' : s'.nConns = 0) (hport : s'.port2connid = s.port2connid)
    (hip : s'.ip2connid = s.ip2connid) : Indexed s' := by
  have hentries : s'.entries = s.entries := by rw [entries_eq_nil hn, entries_eq_nil hn']
  refine ⟨?_, ?_, ?_⟩
  · rw [hentries, hport]
    exact hs.port
  · rw [hentries, hip]
    exact hs.ip
  · rw [hentries]
    exact hs.appid

/-! ## Runs -/

theorem init_indexed {L : Limits} {s : State} (h : (attribution L).Init s) :
    Indexed s ∧ s.nConns = 0 := by
  rcases h with ⟨opens, hstart⟩
  rcases startCapture_zero hstart with ⟨hn, hport, hip⟩
  exact ⟨indexed_of_unused hn hport hip, hn⟩

theorem step_tablesOk {L : Limits} (hL : L.conns ≤ 32768) {e : Event} {s s' : State}
    (hs : TablesOk L s) (h : step L e s = some s') : TablesOk L s' := by
  cases e with
  | restart opens =>
      rcases startCapture_restart (step_restart.mp h) with ⟨hn, hport, hip⟩
      refine ⟨by omega, ?_, Or.inr hn⟩
      unfold Undoable
      rw [hport, hip]
      exact hs.undoable
  | packet fs pkt =>
      rcases step_packet.mp h with ⟨a, hcall⟩
      exact (updatePacketCore_tablesOk hL hs hcall).1

/-- Every state of every run keeps the invariant. -/
theorem reachable_tablesOk {L : Limits} (hL : L.conns ≤ 32768) {s : State}
    (h : (attribution L).Reachable s) : TablesOk L s := by
  refine h.invariant (fun s₀ hinit => ?_) (fun e s s' hs hstep => ?_)
  · rcases init_indexed hinit with ⟨hindexed, hn⟩
    exact ⟨by omega, hindexed.undoable, Or.inl hindexed⟩
  · rw [attribution_step] at hstep
    exact step_tablesOk hL hs hstep

/-- A bearer-change restart that finds the connection table empty; a packet is
always allowed. -/
def RestartOnEmpty : Event → State → Prop
  | .restart _, s => s.nConns = 0
  | .packet _ _, _ => True

instance : ∀ e s, Decidable (RestartOnEmpty e s)
  | .restart _, s => inferInstanceAs (Decidable (s.nConns = 0))
  | .packet _ _, _ => inferInstanceAs (Decidable True)

/-- While restarts find the table empty, the indexes describe it. -/
theorem reachable_indexed {L : Limits} (hL : L.conns ≤ 32768) {s : State}
    (h : (attribution L).ReachableBy RestartOnEmpty s) : Indexed s := by
  have hinv : TablesOk L s ∧ Indexed s := by
    refine h.invariant (P := fun s => TablesOk L s ∧ Indexed s) (fun s₀ hinit => ?_) ?_
    · rcases init_indexed hinit with ⟨hindexed, hn⟩
      exact ⟨⟨by omega, hindexed.undoable, Or.inl hindexed⟩, hindexed⟩
    · rintro e s s' ⟨htables, hindexed⟩ hok hstep
      rw [attribution_step] at hstep
      refine ⟨step_tablesOk hL htables hstep, ?_⟩
      cases e with
      | restart opens =>
          rcases startCapture_restart (step_restart.mp hstep) with ⟨hn, hport, hip⟩
          exact indexed_of_restart hindexed hok hn hport hip
      | packet fs pkt =>
          rcases step_packet.mp hstep with ⟨a, hcall⟩
          exact (updatePacketCore_tablesOk hL htables hcall).2 hindexed
  exact hinv.2

/-! ## The index tables in terms of the entries -/

/-- The index says of every key how many entries have it and, if one has, which,
and its set list holds every slot in use exactly once. -/
structure IndexExact (key : ConnInfo → ℕ) (cs : List ConnInfo) (ix : ConnIndex) : Prop where
  none_iff : ∀ k, ix.slot k = -1 ↔ ∀ c ∈ cs, key c ≠ k
  one_iff : ∀ k (i : ℕ), ix.slot k = i ↔
    ∃ c, cs[i]? = some c ∧ key c = k ∧ ∀ j c', cs[j]? = some c' → key c' = k → j = i
  several_iff : ∀ k, ix.slot k = -2 ↔ 2 ≤ cs.countP fun c => key c = k
  nodup : ix.setList.Nodup
  mem_iff : ∀ k, k ∈ ix.setList ↔ ix.slot k ≠ -1

/-- Both index tables say so of the connection table. -/
def IndexesExact (s : State) : Prop :=
  IndexExact portKey s.entries s.port2connid ∧ IndexExact ipKey s.entries s.ip2connid

/-- The description by occurrence markers, spelled out. -/
theorem Indexes.exact {key : ConnInfo → ℕ} {cs : List ConnInfo} {ix : ConnIndex}
    (h : Indexes key cs ix) : IndexExact key cs ix where
  none_iff := by
    intro k
    rw [h.slot, encodeSlot_eq_neg_one_iff, Lib.slotOf_eq_none_iff]
    simp
  one_iff := by
    intro k i
    rw [h.slot, encodeSlot_eq_natCast_iff, Lib.slotOf_eq_one_iff]
    simp only [List.getElem?_map, Option.map_eq_some_iff]
    constructor
    · rintro ⟨⟨c, hc, hkey⟩, huniq⟩
      exact ⟨c, hc, hkey, fun j c' hc' hkey' => huniq j ⟨c', hc', hkey'⟩⟩
    · rintro ⟨c, hc, hkey, huniq⟩
      refine ⟨⟨c, hc, hkey⟩, ?_⟩
      rintro j ⟨c', hc', hkey'⟩
      exact huniq j c' hc' hkey'
  several_iff := by
    intro k
    rw [h.slot, encodeSlot_eq_neg_two_iff, Lib.slotOf_eq_several_iff, List.count,
      List.countP_map]
    simp [Function.comp_def, beq_eq_decide]
  nodup := h.setList.1
  mem_iff := fun _ => h.mem_setList_iff

/-- In every run whose restarts find the connection table empty, both index
tables are exact at every return; a restart that then finds entries in it
returns with a port index that is not. -/
theorem indexesExact_runs {s : State}
    (hs : (attribution srcLimits).ReachableBy RestartOnEmpty s) :
    IndexesExact s ∧ ∀ opens s', s.nConns ≠ 0 →
      step srcLimits (.restart opens) s = some s' → ¬ IndexesExact s' := by
  have hindexed : Indexed s := reachable_indexed (by decide) hs
  constructor
  · exact ⟨hindexed.port.exact, hindexed.ip.exact⟩
  · intro opens s' hne hstep hexact
    rcases startCapture_restart (step_restart.mp hstep) with ⟨hn', hport, _⟩
    -- the first entry's port is in use before the restart, and still is after it
    have hmem : s.conns 0 ∈ s.entries :=
      ConnTable.mem_entries_of_lt (t := s.toConnTable) (Nat.pos_of_ne_zero hne)
    have hbefore : s.port2connid.slot (portKey (s.conns 0)) ≠ -1 := fun hfree =>
      (hindexed.port.exact.none_iff _).mp hfree _ hmem rfl
    have hafter : s'.port2connid.slot (portKey (s.conns 0)) = -1 := by
      rw [hexact.1.none_iff, entries_eq_nil hn']
      exact fun c hc => absurd hc List.not_mem_nil
    rw [hport] at hafter
    exact hbefore hafter

/-! ## Two sockets, and a bearer change -/

/-- One process with one TCP socket, local port 0x19. -/
def oneSocket : ProcFs :=
  ProcFs.ofSockets ["0 0100007F:19 2C2BB20A:1BB 0 0 0 0 0 0 7"] [] [(5, "a", ["7"])]

/-- A packet of that socket. -/
def oneSocketPacket : Packet :=
  { localPort := 0x19, localIP := 0x0100007F, remotePort := 0x1BB, remoteIP := 0x2C2BB20A
    protocol := protTcp, curSec := 100 }

/-- The same socket and a second process with one to the same server. -/
def twoSockets : ProcFs :=
  ProcFs.ofSockets
    ["0 0100007F:19 2C2BB20A:1BB 0 0 0 0 0 0 7", "1 0100007F:1A 2C2BB20A:1BB 0 0 0 0 0 0 8"] []
    [(5, "a", ["7"]), (6, "b", ["8"])]

/-- A packet of the second one's socket, when the first has timed out. -/
def secondSocketPacket : Packet :=
  { oneSocketPacket with localPort := 0x1A, curSec := 1000 }

/-- A restart on the empty table and two packets: both ports name their entry,
and a restart that now finds the two entries leaves them behind. -/
theorem indexesExact_runs_twoSockets :
    ∃ s, (attribution srcLimits).runBy RestartOnEmpty
        [.restart fun _ => true, .packet oneSocket oneSocketPacket,
          .packet twoSockets secondSocketPacket] State.started = some s ∧
      s.nConns = 2 ∧ s.port2connid.slot 0x19 = 0 ∧ s.port2connid.slot 0x1A = 1 ∧
      IndexesExact s ∧
      ∀ opens s', step srcLimits (.restart opens) s = some s' → ¬ IndexesExact s' := by
  have hrun : ((attribution srcLimits).runBy RestartOnEmpty
      [.restart fun _ => true, .packet oneSocket oneSocketPacket,
        .packet twoSockets secondSocketPacket] State.started).any
      (fun s => s.nConns = 2 ∧ s.port2connid.slot 0x19 = 0 ∧ s.port2connid.slot 0x1A = 1) := by
    decide +kernel
  rcases (Option.any_eq_true _ _).mp hrun with ⟨s, hsteps, hs⟩
  rcases of_decide_eq_true hs with ⟨hn, hfirst, hsecond⟩
  have hreach : (attribution srcLimits).ReachableBy RestartOnEmpty s :=
    (Lib.System.ReachableBy.init (init_started srcLimits)).steps (Lib.System.steps_of_runBy hsteps)
  have hexact := indexesExact_runs hreach
  exact ⟨s, hsteps, hn, hfirst, hsecond, hexact.1, fun opens s' => hexact.2 opens s' (by omega)⟩

/-- After a bearer change slot 0x19 still names entry 0 of an empty table. -/
theorem not_indexesExact_after_restart :
    ¬ ∀ s, (attribution srcLimits).Reachable s → IndexesExact s := by
  intro hall
  have hrun : ((attribution srcLimits).run
      [.packet oneSocket oneSocketPacket, .restart fun _ => true] State.started).any
      (fun s => s.nConns = 0 ∧ s.port2connid.slot 0x19 = 0) := by decide +kernel
  rcases (Option.any_eq_true _ _).mp hrun with ⟨s, hsteps, hs⟩
  rcases of_decide_eq_true hs with ⟨hn, hslot⟩
  have hexact := hall s (Lib.System.reachable_of_run (init_started srcLimits) hsteps)
  have hfree : s.port2connid.slot 0x19 = -1 := by
    rw [hexact.1.none_iff, entries_eq_nil hn]
    exact fun c hc => absurd hc List.not_mem_nil
  rw [hslot] at hfree
  exact absurd hfree (by decide)

end MobiPerf.SocketProc
