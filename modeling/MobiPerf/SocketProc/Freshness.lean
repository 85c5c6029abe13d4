import MobiPerf.SocketProc.Attribution
import MobiPerf.SocketProc.Join

/-!
# SocketProc.Freshness — how old the entry behind an app id can be

Beside the tables a run keeps, for every entry, the time at which it was created
or last used (`Times`), told by the events alone: reading a socket table creates
entries, a returned app id uses one, a clean-up moves entries down, and nothing
else counts. `tv_sec` is that time along every run (`onTime_of_reachable`).

* `updatePacketCore_fresh`: an app id is that of an entry created or used less than
  `TIMEOUT` seconds before, or the tables were read again in the call.
-/

namespace MobiPerf.SocketProc

open Lib (System)

/-! ## Where an entry comes from -/

/-- The positions a clean-up keeps, in order. -/
def keptIndexes (curSec : Int) (t : ConnTable) : List ℕ :=
  (List.range t.nConns).filter fun i => (markAll curSec t i).appid ≠ -1

/-- An entry that has an application after another was marked is as it was. -/
theorem dropConn_of_unmarked {conns : ℕ → ConnInfo} {i j : ℕ}
    (h : (dropConn conns j i).appid ≠ -1) : dropConn conns j i = conns i := by
  unfold dropConn at h ⊢
  by_cases hi : i = j
  · subst hi
    simp at h
  · rw [Function.update_of_ne hi]

/-- One iteration marks one entry at most. -/
theorem markConn_cases (curSec : Int) (conns : ℕ → ConnInfo) (k : ℕ) :
    markConn curSec conns k = conns ∨ ∃ j, markConn curSec conns k = dropConn conns j := by
  unfold markConn
  split
  · exact Or.inl rfl
  · split
    · exact Or.inr ⟨k, rfl⟩
    · split
      · exact Or.inl rfl
      · rename_i j _
        split
        · exact Or.inr ⟨j, rfl⟩
        · exact Or.inr ⟨k, rfl⟩

/-- An entry that is not marked is as it was. -/
theorem markAll_of_unmarked {curSec : Int} {t : ConnTable} {i : ℕ}
    (h : (markAll curSec t i).appid ≠ -1) : markAll curSec t i = t.conns i := by
  have hall : ∀ i, (markAll curSec t i).appid ≠ -1 → markAll curSec t i = t.conns i := by
    refine Lib.foldl_range_induct (n := t.nConns)
      (P := fun (_ : ℕ) (conns' : ℕ → ConnInfo) =>
        ∀ i, (conns' i).appid ≠ -1 → conns' i = t.conns i) ?_ fun _ _ => rfl
    intro k conns' _ hconns i hi
    rcases markConn_cases curSec conns' k with hsame | ⟨j, hdrop⟩
    · rw [hsame] at hi ⊢
      exact hconns i hi
    · rw [hdrop] at hi ⊢
      have hkeep := dropConn_of_unmarked hi
      rw [hkeep] at hi ⊢
      exact hconns i hi
  exact hall i h

/-- An entry a clean-up leaves is the one at the position it was kept from. -/
theorem cleanConnectionInfo_conns {curSec : Int} {t : ConnTable} {i : ℕ}
    (hi : i < (cleanConnectionInfo curSec t).nConns) :
    ∃ j, (keptIndexes curSec t)[i]? = some j ∧ j < t.nConns ∧
      (cleanConnectionInfo curSec t).conns i = t.conns j := by
  have hget := (cleanConnectionInfo curSec t).getElem?_entries i
  rw [if_pos hi, (cleanConnectionInfo_unmarked curSec t).2, unmarked_eq_map,
    List.getElem?_map, Option.map_eq_some_iff] at hget
  rcases hget with ⟨j, hj, heq⟩
  have hmem : j ∈ keptIndexes curSec t := List.mem_of_getElem? hj
  rcases List.mem_filter.mp hmem with ⟨hrange, happ⟩
  refine ⟨j, hj, List.mem_range.mp hrange, ?_⟩
  rw [← heq]
  exact markAll_of_unmarked (of_decide_eq_true happ)

/-! ## What a refresh does to times -/

/-- The table after a refresh has read the sockets: the entries there were keep
their times, the new ones have the time of the refresh. -/
structure Stamped (curSec : Int) (t t' : ConnTable) : Prop where
  le : t.nConns ≤ t'.nConns
  old : ∀ i < t.nConns, (t'.conns i).tvSec = (t.conns i).tvSec
  new : ∀ i, t.nConns ≤ i → i < t'.nConns → (t'.conns i).tvSec = curSec

theorem Stamped.refl (curSec : Int) (t : ConnTable) : Stamped curSec t t :=
  ⟨Nat.le_refl _, fun _ _ => rfl, fun i h h' => by omega⟩

/-- Two changes, one after the other. -/
theorem Stamped.trans {curSec : Int} {t t' t'' : ConnTable} (h : Stamped curSec t t')
    (h' : Stamped curSec t' t'') : Stamped curSec t t'' := by
  refine ⟨Nat.le_trans h.le h'.le, fun i hi => ?_, fun i hi hi' => ?_⟩
  · rw [h'.old i (Nat.lt_of_lt_of_le hi h.le), h.old i hi]
  · by_cases hlt : i < t'.nConns
    · rw [h'.old i hlt]
      exact h.new i hi hlt
    · exact h'.new i (Nat.not_lt.mp hlt) hi'

/-- Whatever changes neither the number of entries nor their times. -/
theorem Stamped.of_same {curSec : Int} {t t' : ConnTable} (hn : t'.nConns = t.nConns)
    (h : ∀ i, (t'.conns i).tvSec = (t.conns i).tvSec) : Stamped curSec t t' :=
  ⟨by omega, fun i _ => h i, fun i hi hi' => by omega⟩

/-- A line makes an entry of the call's time, if it makes one. -/
theorem readLine_stamped {L : Limits} {protocol : ℕ} {curSec : Int} {t t' : ConnTable}
    {line : Bytes} (h : readLine L protocol curSec t line = .ok t') : Stamped curSec t t' := by
  rcases readLine_cases h with ⟨_, c, hconns, _, _, _, htime, hn⟩
  refine ⟨by omega, fun i hi => ?_, fun i hi hi' => ?_⟩
  · rw [hconns, Function.update_of_ne (by omega)]
  · have heq : i = t.nConns := by omega
    rw [hconns, heq, Function.update_self, htime]

/-- Reading a file stamps its entries. -/
theorem readConnections_stamped {L : Limits} {fs : ProcFs} {filename : String} {protocol : ℕ}
    {curSec : Int} {t t' : ConnTable}
    (h : readConnections L fs filename protocol curSec t = .ok t') : Stamped curSec t t' := by
  unfold readConnections at h
  split at h
  · cases h
    exact Stamped.refl curSec t
  · refine Lib.foldlM_preserves (P := Stamped curSec t) ?_ (Stamped.refl curSec t) h
    intro t₁ line t₂ h₁ hline
    exact h₁.trans (readLine_stamped hline)

/-- And so does reading all four. -/
theorem readAll_stamped {L : Limits} {fs : ProcFs} {curSec : Int} {t t' : ConnTable}
    (h : readAll L fs curSec t = .ok t') : Stamped curSec t t' := by
  unfold readAll at h
  rcases Lib.except_bind_eq_ok.mp h with ⟨t₁, h₁, h⟩
  rcases Lib.except_bind_eq_ok.mp h with ⟨t₂, h₂, h⟩
  rcases Lib.except_bind_eq_ok.mp h with ⟨t₃, h₃, h⟩
  exact (((readConnections_stamped h₁).trans (readConnections_stamped h₂)).trans
    (readConnections_stamped h₃)).trans (readConnections_stamped h)

/-- Naming an entry leaves its time. -/
theorem updateName_tvSec {L : Limits} {fs : ProcFs} {st st' : NameLoop} {k : ℕ}
    (h : updateName L fs st k = .ok st') (i : ℕ) :
    (st'.1.conns i).tvSec = (st.1.conns i).tvSec := by
  obtain ⟨-, id, hconns⟩ := updateName_cases h
  rw [hconns]
  by_cases hi : i = k
  · subst hi
    simp
  · simp [Function.update_of_ne hi]

theorem updateNames_stamped {L : Limits} {fs : ProcFs} {st st' : NameLoop}
    (h : updateNames L fs st = .ok st') (curSec : Int) : Stamped curSec st.1 st'.1 := by
  refine Stamped.of_same (updateNames_nConns h) fun i => ?_
  refine Lib.foldlM_preserves (P := fun s : NameLoop =>
    (s.1.conns i).tvSec = (st.1.conns i).tvSec) ?_ rfl h
  intro s k s' hs hbody
  rw [updateName_tvSec hbody, hs]

/-- The join makes new entries only. -/
theorem joinProcesses_stamped {L : Limits} {fs : ProcFs} {curSec : Int} {s : State}
    {r : ConnTable × ProcTable} (h : joinProcesses L fs curSec s = .ok r) :
    Stamped curSec s.toConnTable r.1 := by
  rcases Lib.except_bind_eq_ok.mp h with ⟨t₁, hread, hattach⟩
  have hsame := attachProcessInfo_sameButPid hattach
  have hattached : Stamped curSec t₁ r.1 := Stamped.of_same hsame.1 fun i => by rw [hsame.2 i]
  have hstamped := (readAll_stamped hread).trans hattached
  exact ⟨hstamped.le, hstamped.old, hstamped.new⟩

/-- The table of a refresh before its clean-up. -/
def namedTable (L : Limits) (fs : ProcFs) (curSec : Int) (s : State) : Except Halt ConnTable := do
  let s := init s
  let t ← readAll L fs curSec s.toConnTable
  let (t, p) ← attachProcessInfo L fs t s.toProcTable
  let (t, _) ← updateNames L fs (t, p, s.toAppTable)
  .ok t

/-- A refresh cleans the table up that it has named. -/
theorem namedTable_of_refresh {L : Limits} {fs : ProcFs} {curSec : Int} {s s' : State}
    (h : updateProcessSocketInfo L fs curSec s = .ok s') :
    ∃ t, namedTable L fs curSec s = .ok t ∧ Stamped curSec s.toConnTable t ∧
      s'.toConnTable = cleanConnectionInfo curSec t := by
  rw [updateProcessSocketInfo_join] at h
  rcases Lib.except_bind_eq_ok.mp h with ⟨⟨t₂, p⟩, hjoin, h⟩
  rcases Lib.except_bind_eq_ok.mp h with ⟨⟨t₃, p', a⟩, hnames, h⟩
  rcases Lib.except_bind_eq_ok.mp h with ⟨ix₁, _, h⟩
  rcases Lib.except_bind_eq_ok.mp h with ⟨ix₂, _, h⟩
  cases h
  refine ⟨t₃, ?_, (joinProcesses_stamped hjoin).trans (updateNames_stamped hnames curSec), rfl⟩
  rcases Lib.except_bind_eq_ok.mp hjoin with ⟨t₁, hread, hattach⟩
  exact Lib.except_bind_eq_ok.mpr ⟨t₁, hread, Lib.except_bind_eq_ok.mpr ⟨(t₂, p), hattach,
    Lib.except_bind_eq_ok.mpr ⟨(t₃, p', a), hnames, rfl⟩⟩⟩

/-! ## Times of creation or last use -/

/-- Of every entry, the time at which it was created or last used. -/
abbrev Times := ℕ → Int

/-- A refresh creates the entries past those there were, and moves what it keeps. -/
def refreshTimes (L : Limits) (fs : ProcFs) (curSec : Int) (s : State) (times : Times) : Times :=
  match namedTable L fs curSec s with
  | .error _ => times
  | .ok t => fun i =>
    match (keptIndexes curSec t)[i]? with
    | some j => if j < s.nConns then times j else curSec
    | none => times i

/-- A call uses the entry whose application it returns, after a refresh or
without one. -/
def callTimes (L : Limits) (fs : ProcFs) (pkt : Packet) (s : State) (times : Times) : Times :=
  match lookupConn (fun c => c.Fresh pkt.curSec) pkt s with
  | .ok (some i) => Function.update times i pkt.curSec
  | _ =>
    match updateProcessSocketInfo L fs pkt.curSec s with
    | .error _ => times
    | .ok s₁ =>
      let times := refreshTimes L fs pkt.curSec s times
      match lookupConn (fun _ => true) pkt s₁ with
      | .ok (some i) => Function.update times i pkt.curSec
      | _ => times

def timedStep (L : Limits) : Event → State × Times → Option (State × Times)
  | .restart opens, (s, times) => (step L (.restart opens) s).map fun s' => (s', times)
  | .packet fs pkt, (s, times) =>
    (step L (.packet fs pkt) s).map fun s' => (s', callTimes L fs pkt s times)

/-- The runs of a capture, with the times beside the tables. -/
def timed (L : Limits) : System (State × Times) Event where
  Init s := (attribution L).Init s.1
  step := timedStep L

/-- Every run of a capture is the run of a timed one. -/
theorem timed_of_reachable {L : Limits} {s : State} (h : (attribution L).Reachable s) :
    ∃ times, (timed L).Reachable (s, times) := by
  refine h.invariant (P := fun s => ∃ times, (timed L).Reachable (s, times))
    (fun s₀ hinit => ⟨fun _ => 0, System.ReachableBy.init hinit⟩) ?_
  rintro e s s' ⟨times, hs⟩ hstep
  rw [attribution_step] at hstep
  cases e with
  | restart opens =>
      refine ⟨times, hs.tail (i := .restart opens) trivial ?_⟩
      show (step L (.restart opens) s).map _ = _
      rw [hstep]
      rfl
  | packet fs pkt =>
      refine ⟨callTimes L fs pkt s times, hs.tail (i := .packet fs pkt) trivial ?_⟩
      show (step L (.packet fs pkt) s).map _ = _
      rw [hstep]
      rfl

/-- A timed step is a step. -/
theorem timedStep_fst {L : Limits} {e : Event} {s s' : State × Times}
    (h : timedStep L e s = some s') : step L e s.1 = some s'.1 := by
  rcases s with ⟨s, times⟩
  cases e with
  | restart opens =>
      rcases Option.map_eq_some_iff.mp h with ⟨s₁, hstep, rfl⟩
      exact hstep
  | packet fs pkt =>
      rcases Option.map_eq_some_iff.mp h with ⟨s₁, hstep, rfl⟩
      exact hstep

/-- So a timed run is a run. -/
theorem reachable_of_timed {L : Limits} {s : State × Times} (h : (timed L).Reachable s) :
    (attribution L).Reachable s.1 := by
  refine h.invariant (P := fun s => (attribution L).Reachable s.1)
    (fun s₀ hinit => System.ReachableBy.init hinit) ?_
  intro e s s' hs hstep
  exact System.ReachableBy.tail hs trivial (timedStep_fst hstep)

/-- The entries of the table, and those an index still names after a restart
emptied it. -/
def Named (s : State) (i : ℕ) : Prop :=
  i < s.nConns ∨ (∃ k, s.port2connid.slot k = i) ∨ ∃ k, s.ip2connid.slot k = i

/-- `tv_sec` is the time of creation or last use. -/
def OnTime (s : State × Times) : Prop :=
  ∀ i, Named s.1 i → (s.1.conns i).tvSec = s.2 i

/-- What an index names is in use. -/
theorem Indexed.lt_of_named {s : State} (h : Indexed s) {i : ℕ} (hi : Named s i) :
    i < s.nConns := by
  rcases hi with hlt | ⟨k, hslot⟩ | ⟨k, hslot⟩
  · exact hlt
  · exact (h.port.entry_of_slot hslot).1
  · exact (h.ip.entry_of_slot hslot).1

/-- Using an entry sets both to the time of the call. -/
theorem OnTime.use {s : State} {times : Times} (h : OnTime (s, times)) (i : ℕ) (curSec : Int) :
    OnTime (touchConn i curSec s, Function.update times i curSec) := by
  intro j hj
  by_cases hji : j = i
  · subst hji
    show ((touchConn j curSec s).conns j).tvSec = Function.update times j curSec j
    rw [touchConn_conns_self, Function.update_self]
  · show ((touchConn i curSec s).conns j).tvSec = Function.update times i curSec j
    rw [touchConn_conns_of_ne hji, Function.update_of_ne hji]
    exact h j hj

/-- A refresh that returns keeps them equal. -/
theorem OnTime.refresh {L : Limits} (hL : L.conns ≤ 32768) {fs : ProcFs} {curSec : Int}
    {s s₁ : State} {times : Times} (htables : TablesOk L s) (h : OnTime (s, times))
    (hrefresh : updateProcessSocketInfo L fs curSec s = .ok s₁) :
    OnTime (s₁, refreshTimes L fs curSec s times) := by
  obtain ⟨hindexed, _, _, _⟩ :=
    updateProcessSocketInfo_spec hL htables.nConns_le htables.undoable hrefresh
  rcases namedTable_of_refresh hrefresh with ⟨t, hnamed, hstamped, hclean⟩
  intro i hi
  have hlt : i < (cleanConnectionInfo curSec t).nConns := by
    rw [← hclean]
    exact hindexed.lt_of_named hi
  rcases cleanConnectionInfo_conns hlt with ⟨j, hkept, hj, hconn⟩
  have hconn : s₁.conns i = t.conns j := by
    rw [← hconn, ← hclean]
  show (s₁.conns i).tvSec = refreshTimes L fs curSec s times i
  unfold refreshTimes
  rw [hnamed, hconn]
  dsimp only
  rw [hkept]
  dsimp only
  split
  · rename_i hold
    rw [hstamped.old j hold]
    exact h j (Or.inl hold)
  · rename_i hnew
    exact hstamped.new j (Nat.not_lt.mp hnew) hj

/-- A start leaves the entries where they are. -/
theorem startCapture_conns {opens : String → Bool} {s s' : State}
    (h : startCapture opens s = .ok s') : s'.conns = s.conns := by
  unfold startCapture at h
  dsimp only at h
  split at h
  · cases h
  · split at h
    · split at h
      · cases h
      · cases h
        rfl
    · cases h
      rfl

/-- What a call that returned did, with the times it leaves. -/
theorem callTimes_cases {L : Limits} {fs : ProcFs} {pkt : Packet} {s s' : State} {a : Int}
    (h : updatePacketCore L fs pkt s = .ok (a, s')) (times : Times) :
    (∃ i, lookupConn (fun c => c.Fresh pkt.curSec) pkt s = .ok (some i) ∧
        (a, s') = useConn i pkt.curSec s ∧
        callTimes L fs pkt s times = Function.update times i pkt.curSec) ∨
      ∃ s₁, updateProcessSocketInfo L fs pkt.curSec s = .ok s₁ ∧
        ((∃ i, lookupConn (fun _ => true) pkt s₁ = .ok (some i) ∧
            (a, s') = useConn i pkt.curSec s₁ ∧
            callTimes L fs pkt s times =
              Function.update (refreshTimes L fs pkt.curSec s times) i pkt.curSec) ∨
          (a = -1 ∧ s' = s₁ ∧
            callTimes L fs pkt s times = refreshTimes L fs pkt.curSec s times)) := by
  unfold updatePacketCore at h
  unfold callTimes
  rcases Lib.except_bind_eq_ok.mp h with ⟨hit, hlook, h⟩
  rw [hlook]
  cases hit with
  | some i =>
      left
      exact ⟨i, rfl, (Except.ok.inj h).symm, rfl⟩
  | none =>
      -- no fresh entry: the tables are read again, and searched once more
      right
      rcases Lib.except_bind_eq_ok.mp h with ⟨s₁, hrefresh, h⟩
      rcases Lib.except_bind_eq_ok.mp h with ⟨hit, hlook₁, h⟩
      refine ⟨s₁, hrefresh, ?_⟩
      dsimp only
      rw [hrefresh]
      dsimp only
      rw [hlook₁]
      cases hit with
      | some i =>
          left
          exact ⟨i, rfl, (Except.ok.inj h).symm, rfl⟩
      | none =>
          right
          have heq : (-1, s₁) = (a, s') := Except.ok.inj h
          cases heq
          exact ⟨rfl, rfl, rfl⟩

/-- Every step keeps the times. -/
theorem timedStep_onTime {L : Limits} (hL : L.conns ≤ 32768) {e : Event} {s s' : State × Times}
    (htables : TablesOk L s.1) (h : OnTime s) (hstep : timedStep L e s = some s') :
    OnTime s' := by
  rcases s with ⟨s, times⟩
  cases e with
  | restart opens =>
      rcases Option.map_eq_some_iff.mp hstep with ⟨s₁, hrestart, rfl⟩
      have hstart := step_restart.mp hrestart
      rcases startCapture_restart hstart with ⟨hn, hport, hip⟩
      have hconns := startCapture_conns hstart
      intro i hi
      show (s₁.conns i).tvSec = times i
      rw [hconns]
      refine h i ?_
      -- only an index can name an entry of the emptied table
      rcases hi with hlt | ⟨k, hslot⟩ | ⟨k, hslot⟩
      · have hlt : i < s₁.nConns := hlt
        omega
      · exact Or.inr (Or.inl ⟨k, hport ▸ hslot⟩)
      · exact Or.inr (Or.inr ⟨k, hip ▸ hslot⟩)
  | packet fs pkt =>
      rcases Option.map_eq_some_iff.mp hstep with ⟨s₁, hpacket, rfl⟩
      rcases step_packet.mp hpacket with ⟨a, hcall⟩
      rcases callTimes_cases hcall times with ⟨i, _, huse, htimes⟩ | ⟨s₂, hrefresh, hrest⟩
      · cases huse
        rw [htimes]
        exact h.use i pkt.curSec
      · have hs₂ := OnTime.refresh hL htables h hrefresh
        rcases hrest with ⟨i, _, huse, htimes⟩ | ⟨_, rfl, htimes⟩
        · cases huse
          rw [htimes]
          exact hs₂.use i pkt.curSec
        · rw [htimes]
          exact hs₂

/-- `tv_sec` is the time of creation or last use along every run. -/
theorem onTime_of_reachable {L : Limits} (hL : L.conns ≤ 32768) {s : State × Times}
    (h : (timed L).Reachable s) : OnTime s := by
  refine System.ReachableBy.invariant_of (P := OnTime) ?_ ?_ h
  · rintro ⟨s, times⟩ hinit i hi
    rcases init_indexed (L := L) hinit with ⟨hindexed, hn⟩
    have hlt := hindexed.lt_of_named hi
    omega
  · intro e s s' hreach hs _ hstep
    exact timedStep_onTime hL (reachable_tablesOk hL (reachable_of_timed hreach)) hs hstep

/-- Along every run and for every packet time: an app id that is returned is that
of an entry, whose time the call sets to its own; and either this entry was there
before the call, created or last used less than `TIMEOUT` seconds before, or the
tables were read again in the call. -/
theorem updatePacketCore_fresh {s : State} {times : Times}
    (h : (timed srcLimits).Reachable (s, times)) {fs : ProcFs} {pkt : Packet} {a : Int}
    {s' : State} (hcall : updatePacketCore srcLimits fs pkt s = .ok (a, s')) (ha : 0 ≤ a) :
    ∃ i, Named s' i ∧ (s'.conns i).appid = a ∧ (s'.conns i).tvSec = pkt.curSec ∧
      ((Named s i ∧ (s.conns i).appid = a ∧ pkt.curSec < times i + timeout) ∨
        ∃ s₁, updateProcessSocketInfo srcLimits fs pkt.curSec s = .ok s₁ ∧
          s' = touchConn i pkt.curSec s₁) := by
  -- an id that the look-up gives is named by an index or by the scan
  have hnamed : ∀ {ok : ConnInfo → Bool} {s : State} {i : ℕ},
      lookupConn ok pkt s = .ok (some i) → Named s i := by
    intro ok s i hlook
    rcases (lookupConn_some hlook).2 with hport | hip | ⟨_, _, hsearch⟩
    · exact Or.inr (Or.inl ⟨_, hport⟩)
    · exact Or.inr (Or.inr ⟨_, hip⟩)
    · exact Or.inl (searchForConn_some hsearch).1
  have htime : OnTime (s, times) := onTime_of_reachable (by decide) h
  -- the look-up finds the id at once, or after the one refresh
  rcases callTimes_cases hcall times with ⟨i, hlook, huse, _⟩ | ⟨s₁, hrefresh, hrest⟩
  · cases huse
    have hi : Named s i := hnamed hlook
    have hfresh : (s.conns i).Fresh pkt.curSec := of_decide_eq_true (lookupConn_some hlook).1
    refine ⟨i, hi, ?_, ?_, Or.inl ⟨hi, rfl, ?_⟩⟩
    · rw [touchConn_conns_self]
    · rw [touchConn_conns_self]
    · -- the time in the table is the time of the last packet or refresh
      have hage : pkt.curSec < (s.conns i).tvSec + timeout := hfresh
      have hsame : (s.conns i).tvSec = times i := htime i hi
      rw [← hsame]
      exact hage
  · rcases hrest with ⟨i, hlook, huse, _⟩ | ⟨hneg, _, _⟩
    · cases huse
      have hi : Named s₁ i := hnamed hlook
      refine ⟨i, hi, ?_, ?_, Or.inr ⟨s₁, hrefresh, rfl⟩⟩
      · rw [touchConn_conns_self]
      · rw [touchConn_conns_self]
    · omega

/-- The one socket's packet, before and after its entry is there. -/
theorem updatePacketCore_fresh_oneSocket :
    ∃ s', updatePacketCore srcLimits oneSocket oneSocketPacket State.started = .ok (0, s') ∧
      ∃ i, Named s' i ∧ (s'.conns i).appid = 0 ∧ (s'.conns i).tvSec = 100 ∧
        ((Named State.started i ∧ (State.started.conns i).appid = 0 ∧ (100 : Int) < 0 + timeout) ∨
          ∃ s₁, updateProcessSocketInfo srcLimits oneSocket 100 State.started = .ok s₁ ∧
            s' = touchConn i 100 s₁) := by
  have hrun : (updatePacketCore srcLimits oneSocket oneSocketPacket
      State.started).toOption.any (fun r => r.1 = 0) := by decide +kernel
  rcases Lib.exists_ok_of_any hrun with ⟨⟨a, s'⟩, hcall, ha⟩
  have ha : a = 0 := of_decide_eq_true ha
  subst ha
  have hinit : (timed srcLimits).Reachable (State.started, fun _ => 0) :=
    System.ReachableBy.init (init_started srcLimits)
  exact ⟨s', hcall, updatePacketCore_fresh hinit hcall (Int.le_refl 0)⟩

end MobiPerf.SocketProc
