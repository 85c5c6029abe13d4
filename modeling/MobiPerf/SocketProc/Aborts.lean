import MobiPerf.SocketProc.AppIds
import MobiPerf.SocketProc.IndexInvariant

/-!
# SocketProc.Aborts — the checks that cannot fail

Three `exit(0)` branches report a table that contradicts itself: an entry
without application where all should have one, and a set list that is not empty
when an index is built. `Valid` is the invariant that excludes them: every entry
of the table, and every entry a slot of an index still names (a bearer-change
restart leaves such slots behind), carries an id that `GetAppID` has returned.
Array sizes play no part, so the statements hold for any `Limits`; a run that
leaves an array halts for that reason.
-/

namespace MobiPerf.SocketProc

open Lib

/-- The messages of the three branches. -/
def abortMessages : List String :=
  ["Invalid connection entry with appid=-1", "nPort2connidSet is not zero",
    "nIP2connidSet is not zero"]

/-- The run was stopped by one of them. -/
def Halt.Abort (h : Halt) : Prop := ∃ msg ∈ abortMessages, h = .exit msg

/-- One of the ids `0, …, nApps - 1`. -/
def InUse (nApps : ℕ) (appid : Int) : Prop := 0 ≤ appid ∧ appid < nApps

/-- An id in use is not that of an entry without application. -/
theorem InUse.ne {nApps : ℕ} {appid : Int} (h : InUse nApps appid) : appid ≠ -1 := by
  have := h.1
  omega

theorem InUse.mono {n n' : ℕ} {appid : Int} (h : InUse n appid) (hle : n ≤ n') :
    InUse n' appid := by
  rcases h with ⟨hnonneg, hlt⟩
  exact ⟨hnonneg, by omega⟩

/-- An access out of bounds is not an abort. -/
theorem not_abort_outOfBounds (array : String) : ¬ (Halt.outOfBounds array).Abort := by
  rintro ⟨msg, _, heq⟩
  cases heq

/-- Nor is an exit with another message. -/
theorem not_abort_exit {msg : String} (h : msg ∉ abortMessages) : ¬ (Halt.exit msg).Abort := by
  rintro ⟨msg', hmem, heq⟩
  cases heq
  exact h hmem

/-! ## Reading -/

/-- While the tables are rebuilt an entry may lack an application. -/
def ConnTable.AppsKnown (t : ConnTable) (nApps : ℕ) : Prop :=
  ∀ c ∈ t.entries, c.appid = -1 ∨ InUse nApps c.appid

/-- The applications of a table, by the numbers of its entries. -/
theorem ConnTable.appsKnown_iff {t : ConnTable} {nApps : ℕ} :
    t.AppsKnown nApps ↔
      ∀ i < t.nConns, (t.conns i).appid = -1 ∨ InUse nApps (t.conns i).appid := by
  constructor
  · intro h i hi
    exact h _ (ConnTable.mem_entries_of_lt hi)
  · intro h c hc
    rcases ConnTable.mem_entries.mp hc with ⟨i, hi, rfl⟩
    exact h i hi

/-- Reading an endpoint does not abort. -/
theorem readEndpoint_ends {fs : List Bytes} {j : ℕ} {old : DWORD × ℕ} :
    Ends (readEndpoint fs j old) (fun _ => True) (¬ ·.Abort) := by
  unfold readEndpoint
  split
  · exact ends_ok trivial
  · unfold getSocketInfo
    dsimp only
    split
    · exact ends_ok trivial
    · split
      · exact ends_error (not_abort_exit (by decide))
      · exact ends_ok trivial

/-- An entry that is read has no application yet. -/
theorem readLine_ends {L : Limits} {protocol : ℕ} {curSec : Int} {t : ConnTable} {nApps : ℕ}
    (line : Bytes) (ht : t.AppsKnown nApps) :
    Ends (readLine L protocol curSec t line) (·.AppsKnown nApps) (¬ ·.Abort) := by
  constructor
  · intro t' h
    rcases readLine_cases h with ⟨_, c, hconns, _, happ, _, _, hn⟩
    rw [ConnTable.appsKnown_iff] at ht ⊢
    intro i hi
    rw [hconns]
    by_cases hnew : i = t.nConns
    · subst hnew
      rw [Function.update_self]
      exact Or.inl happ
    · rw [Function.update_of_ne hnew]
      exact ht i (by omega)
  · have hends : Ends (readLine L protocol curSec t line) (fun _ => True) (¬ ·.Abort) := by
      unfold readLine
      split
      · exact ends_error (not_abort_outOfBounds _)
      · refine readEndpoint_ends.bind fun _ _ _ => readEndpoint_ends.bind fun _ _ _ => ?_
        dsimp only
        split
        · exact ends_ok trivial
        · exact ends_ok trivial
    exact hends.2

/-- So it is for a file. -/
theorem readConnections_ends {L : Limits} {fs : ProcFs} {protocol : ℕ} {curSec : Int}
    {t : ConnTable} {nApps : ℕ} (filename : String) (ht : t.AppsKnown nApps) :
    Ends (readConnections L fs filename protocol curSec t) (·.AppsKnown nApps)
      (¬ ·.Abort) := by
  unfold readConnections
  split
  · exact ends_ok ht
  · exact ends_foldlM (fun _ line h => readLine_ends line h) ht

/-- And for all of them. -/
theorem readAll_ends {L : Limits} {fs : ProcFs} {curSec : Int} {t : ConnTable} {nApps : ℕ}
    (ht : t.AppsKnown nApps) :
    Ends (readAll L fs curSec t) (·.AppsKnown nApps) (¬ ·.Abort) := by
  unfold readAll
  refine (readConnections_ends _ ht).bind fun _ _ h₁ => ?_
  refine (readConnections_ends _ h₁).bind fun _ _ h₂ => ?_
  refine (readConnections_ends _ h₂).bind fun _ _ h₃ => ?_
  exact readConnections_ends _ h₃

/-- The join does not touch applications. -/
theorem attachProcessInfo_ends {L : Limits} {fs : ProcFs} {t : ConnTable} {p : ProcTable}
    {nApps : ℕ} (ht : t.AppsKnown nApps) :
    Ends (attachProcessInfo L fs t p) (·.1.AppsKnown nApps) (¬ ·.Abort) := by
  constructor
  · rintro ⟨t', p'⟩ h
    rcases attachProcessInfo_sameButPid h with ⟨hn, hconns⟩
    rw [ConnTable.appsKnown_iff] at ht ⊢
    intro i hi
    rw [hconns i]
    exact ht i (hn ▸ hi)
  · have hpush : ∀ (pids : List Int) (name : Bytes),
        Ends (pushPid L pids name) (fun _ => True) (¬ ·.Abort) := by
      intro pids name
      unfold pushPid
      dsimp only
      split
      · exact ends_ok trivial
      · split
        · exact ends_error (not_abort_outOfBounds _)
        · exact ends_ok trivial
    have hloop : Ends ((fs.dirents.getD []).foldlM (pushPid L) p.pids) (fun _ => True)
        (¬ ·.Abort) :=
      ends_foldlM (fun pids name _ => hpush pids name) trivial
    have hends : Ends (attachProcessInfo L fs t p) (fun _ => True) (¬ ·.Abort) :=
      hloop.bind fun _ _ _ => ends_ok trivial
    exact hends.2

/-! ## Naming -/

/-- The state of the naming loop: the dictionary numbers its names and the
entries carry its ids. -/
def NamesOk (st : NameLoop) : Prop :=
  (∃ known, st.2.2.Numbers known) ∧ st.1.AppsKnown st.2.2.nApps

/-- Reading a name does not abort. -/
theorem getProcName_ends {L : Limits} {fs : ProcFs} {pid : Int} {p : ProcTable} :
    Ends (getProcName L fs pid p) (fun _ => True) (¬ ·.Abort) := by
  unfold getProcName
  split
  · exact ends_ok trivial
  · split
    · exact ends_ok trivial
    · split
      · exact ends_error (not_abort_outOfBounds _)
      · exact ends_ite (fun _ => ends_ok trivial) fun _ => ends_ok trivial

/-- An entry is named with an id that is in use. -/
theorem updateName_ends {L : Limits} {fs : ProcFs} {st : NameLoop} (i : ℕ) (h : NamesOk st) :
    Ends (updateName L fs st i) NamesOk (¬ ·.Abort) := by
  rcases st with ⟨t, p, a⟩
  rcases h with ⟨⟨known, hnumbers⟩, hknown⟩
  unfold updateName
  dsimp only
  split
  · exact ends_ok ⟨⟨known, hnumbers⟩, hknown⟩
  · refine getProcName_ends.bind ?_
    rintro ⟨name, p'⟩ _ _
    cases name with
    | none => exact ends_ok ⟨⟨known, hnumbers⟩, hknown⟩
    | some name =>
        rcases getAppID_lt hnumbers name with ⟨hlt, hmono⟩
        refine ends_ok ⟨⟨_, (getAppID_numbers hnumbers name).1⟩, ?_⟩
        rw [ConnTable.appsKnown_iff] at hknown ⊢
        intro j hj
        dsimp only
        by_cases hji : j = i
        · subst hji
          rw [Function.update_self]
          exact Or.inr ⟨Int.natCast_nonneg _, Int.ofNat_lt.mpr hlt⟩
        · rw [Function.update_of_ne hji]
          exact (hknown j hj).imp_right fun hin => hin.mono hmono

theorem updateNames_ends {L : Limits} {fs : ProcFs} {st : NameLoop} (h : NamesOk st) :
    Ends (updateNames L fs st) NamesOk (¬ ·.Abort) :=
  ends_foldlM (fun _ i hst => updateName_ends i hst) h

/-! ## Indexing -/

/-- A slot never names an entry past the one it was set for, even when the entry
number does not fit a `short`. -/
theorem le_of_toShort_eq {i j : ℕ} (h : toShort j = i) : i ≤ j := by
  unfold toShort at h
  rw [Int.bmod_def] at h
  split at h <;> omega

/-- An index after `n` entries: it can be undone and names only those. -/
def ConnIndex.Names (ix : ConnIndex) (n : ℕ) : Prop :=
  (∀ k, ix.slot k ≠ -1 → k ∈ ix.setList) ∧ ∀ k (i : ℕ), ix.slot k = i → i < n

/-- Indexing an entry that has an application names an entry of the table. -/
theorem indexEntry_ends {L : Limits} {key : ConnInfo → ℕ} {conns : ℕ → ConnInfo}
    {ix : ConnIndex} {i : ℕ} (happ : (conns i).appid ≠ -1) (h : ix.Names i) :
    Ends (indexEntry L key conns ix i) (·.Names (i + 1)) (¬ ·.Abort) := by
  rcases h with ⟨hundo, hnames⟩
  unfold indexEntry
  rw [if_neg happ]
  dsimp only
  split
  · -- the slot is free: the entry is its first
    split
    · exact ends_error (not_abort_outOfBounds _)
    · refine ends_ok ⟨fun k hk => ?_, fun k j hj => ?_⟩
      · rw [List.mem_append, List.mem_singleton]
        by_cases hkey : k = key (conns i)
        · exact Or.inr hkey
        · left
          dsimp only at hk
          rw [Function.update_of_ne hkey] at hk
          exact hundo k hk
      · dsimp only at hj
        by_cases hkey : k = key (conns i)
        · subst hkey
          rw [Function.update_self] at hj
          exact Nat.lt_succ_of_le (le_of_toShort_eq hj)
        · rw [Function.update_of_ne hkey] at hj
          exact Nat.lt_succ_of_lt (hnames k j hj)
  · -- the slot is taken: it is marked as one of several
    rename_i hslot
    refine ends_ok ⟨fun k hk => ?_, fun k j hj => ?_⟩
    · dsimp only at hk ⊢
      by_cases hkey : k = key (conns i)
      · exact hundo k (hkey ▸ hslot)
      · rw [Function.update_of_ne hkey] at hk
        exact hundo k hk
    · dsimp only at hj
      by_cases hkey : k = key (conns i)
      · subst hkey
        rw [Function.update_self] at hj
        omega
      · rw [Function.update_of_ne hkey] at hj
        exact Nat.lt_succ_of_lt (hnames k j hj)

/-- After the reset an index names nothing. -/
theorem ConnIndex.reset_names {ix : ConnIndex} (h : ∀ k, ix.slot k ≠ -1 → k ∈ ix.setList) :
    ix.reset.Names 0 := by
  have hfree := (ConnIndex.reset_indexes portKey h).slot
  refine ⟨fun k hk => ?_, fun k i hi => ?_⟩
  · exact absurd (hfree k) hk
  · rw [hfree k] at hi
    simp only [List.map_nil, encodeSlot] at hi
    have hnone : Lib.slotOf ([] : List ℕ) k = .none := by simp
    rw [hnone] at hi
    dsimp only at hi
    omega

/-- The index of a table whose entries all have an application is built. -/
theorem updateConnid_ends {L : Limits} {key : ConnInfo → ℕ} {msg : String} {t : ConnTable}
    {ix : ConnIndex} (happ : ∀ c ∈ t.entries, c.appid ≠ -1) (hset : ix.setList = [])
    (h : ix.Names 0) :
    Ends (updateConnid L key msg t ix) (·.Names t.nConns) (¬ ·.Abort) := by
  unfold updateConnid
  rw [if_neg (by simp [hset])]
  refine ends_foldlM_range (P := fun k (ix : ConnIndex) => ix.Names k) ?_ h
  intro k ix hk hix
  exact indexEntry_ends (happ _ (ConnTable.mem_entries_of_lt hk)) hix

/-! ## The invariant -/

/-- The state between two calls. -/
structure Valid (s : State) : Prop where
  undoable : Undoable s
  numbers : ∃ known, s.toAppTable.Numbers known
  entries : ∀ i < s.nConns, InUse s.nApps (s.conns i).appid
  port : ∀ k (i : ℕ), s.port2connid.slot k = i → InUse s.nApps (s.conns i).appid
  ip : ∀ k (i : ℕ), s.ip2connid.slot k = i → InUse s.nApps (s.conns i).appid

/-- A refresh ends without an abort, and keeps the invariant. -/
theorem updateProcessSocketInfo_ends {L : Limits} {fs : ProcFs} {curSec : Int} {s : State}
    (h : Valid s) : Ends (updateProcessSocketInfo L fs curSec s) Valid (¬ ·.Abort) := by
  unfold updateProcessSocketInfo
  dsimp only
  have hstart : (init s).toConnTable.AppsKnown s.nApps :=
    ConnTable.appsKnown_iff.mpr fun i hi => Or.inr (h.entries i hi)
  refine (readAll_ends hstart).bind fun t₁ _ hread => ?_
  refine (attachProcessInfo_ends hread).bind fun r _ hattach => ?_
  rcases r with ⟨t₂, p⟩
  have hnames : NamesOk (t₂, p, (init s).toAppTable) := ⟨h.numbers, hattach⟩
  refine (updateNames_ends hnames).bind fun r _ hnamed => ?_
  rcases r with ⟨t₃, p', a⟩
  rcases hnamed with ⟨hnumbers, hknown⟩
  -- what the clean-up keeps has an application
  have hclean : ∀ c ∈ (cleanConnectionInfo curSec t₃).entries, InUse a.nApps c.appid := by
    intro c hc
    rcases cleanConnectionInfo_mem hc with ⟨happ, _, hmem⟩
    exact (hknown c hmem).resolve_left happ
  have happ : ∀ c ∈ (cleanConnectionInfo curSec t₃).entries, c.appid ≠ -1 :=
    fun c hc => (hclean c hc).ne
  have hentry : ∀ i < (cleanConnectionInfo curSec t₃).nConns,
      InUse a.nApps ((cleanConnectionInfo curSec t₃).conns i).appid :=
    fun i hi => hclean _ (ConnTable.mem_entries_of_lt hi)
  have hport : Ends (updatePort2Connid L (cleanConnectionInfo curSec t₃) s.port2connid.reset)
      (·.Names (cleanConnectionInfo curSec t₃).nConns) (¬ ·.Abort) :=
    updateConnid_ends happ rfl (ConnIndex.reset_names h.undoable.1)
  refine hport.bind fun ix₁ _ hix₁ => ?_
  have hip : Ends (updateIP2Connid L (cleanConnectionInfo curSec t₃) s.ip2connid.reset)
      (·.Names (cleanConnectionInfo curSec t₃).nConns) (¬ ·.Abort) :=
    updateConnid_ends happ rfl (ConnIndex.reset_names h.undoable.2)
  refine hip.bind fun ix₂ _ hix₂ => ?_
  exact ends_ok
    { undoable := ⟨hix₁.1, hix₂.1⟩
      numbers := hnumbers
      entries := hentry
      port := fun k i hslot => hentry i (hix₁.2 k i hslot)
      ip := fun k i hslot => hentry i (hix₂.2 k i hslot) }

/-! ## A packet -/

/-- A search among entries with an application does not abort. -/
theorem searchFrom_ends {conns : ℕ → ConnInfo} {pkt : Packet} {is : List ℕ} {pConn : Option ℕ}
    (h : ∀ i ∈ is, (conns i).appid ≠ -1) :
    Ends (searchFrom conns pkt is pConn) (fun _ => True) (¬ ·.Abort) := by
  induction is generalizing pConn with
  | nil => exact ends_ok trivial
  | cons i is ih =>
      unfold searchFrom
      rw [if_neg (h i List.mem_cons_self)]
      split
      · exact ends_ok trivial
      · exact ih fun j hj => h j (List.mem_cons_of_mem i hj)

/-- The entry a lookup finds carries a valid id. -/
theorem lookupConn_ends {ok : ConnInfo → Bool} {pkt : Packet} {s : State} (h : Valid s) :
    Ends (lookupConn ok pkt s) (fun hit => ∀ i, hit = some i → InUse s.nApps (s.conns i).appid)
      (¬ ·.Abort) := by
  constructor
  · rintro hit hlook i rfl
    rcases lookupConn_some hlook with ⟨_, hport | hip | ⟨_, _, hsearch⟩⟩
    · exact h.port _ i hport
    · exact h.ip _ i hip
    · exact h.entries i (searchForConn_some hsearch).1
  · have happ : ∀ i ∈ List.range s.nConns, (s.conns i).appid ≠ -1 :=
      fun i hi => (h.entries i (List.mem_range.mp hi)).ne
    have hends : Ends (lookupConn ok pkt s) (fun _ => True) (¬ ·.Abort) := by
      unfold lookupConn
      dsimp only
      split
      · exact ends_ok trivial
      · split
        · exact ends_ok trivial
        · split
          · exact (searchFrom_ends happ).bind fun _ _ _ => ends_ok trivial
          · exact ends_ok trivial
    exact hends.2

/-- Only the time of an entry changes. -/
theorem touchConn_valid {s : State} (h : Valid s) (i : ℕ) (curSec : Int) :
    Valid (touchConn i curSec s) := by
  have happ : ∀ j, ((touchConn i curSec s).conns j).appid = (s.conns j).appid := by
    intro j
    rw [touchConn_conns]
  exact
    { undoable := h.undoable
      numbers := h.numbers
      entries := fun j hj => (happ j).symm ▸ h.entries j hj
      port := fun k j hj => (happ j).symm ▸ h.port k j hj
      ip := fun k j hj => (happ j).symm ▸ h.ip k j hj }

/-- What a call of `UpdatePacket_Core` may return. -/
def ReturnOk (r : Int × State) : Prop := r.1 = -1 ∨ InUse r.2.nApps r.1

/-- Using an entry returns its application. -/
theorem useConn_ok {s : State} (h : Valid s) {i : ℕ} (hi : InUse s.nApps (s.conns i).appid)
    (curSec : Int) : Valid (useConn i curSec s).2 ∧ ReturnOk (useConn i curSec s) :=
  ⟨touchConn_valid h i curSec, Or.inr hi⟩

/-- A call ends without an abort, and keeps the invariant. -/
theorem updatePacketCore_ends {L : Limits} {fs : ProcFs} {pkt : Packet} {s : State}
    (h : Valid s) :
    Ends (updatePacketCore L fs pkt s) (fun r => Valid r.2 ∧ ReturnOk r) (¬ ·.Abort) := by
  unfold updatePacketCore
  refine (lookupConn_ends h).bind fun hit _ hhit => ?_
  cases hit with
  | some i => exact ends_ok (useConn_ok h (hhit i rfl) _)
  | none =>
      refine (updateProcessSocketInfo_ends h).bind fun s₁ _ h₁ => ?_
      refine (lookupConn_ends h₁).bind fun hit _ hhit => ?_
      cases hit with
      | some i => exact ends_ok (useConn_ok h₁ (hhit i rfl) _)
      | none => exact ends_ok ⟨h₁, Or.inl rfl⟩

/-! ## A start -/

/-- A start fails only on a file it cannot open. Other than the table it empties,
it leaves the tables as they were, or clears index and dictionary together. -/
theorem startCapture_ends {opens : String → Bool} {s : State} :
    Ends (startCapture opens s) (fun s' => Valid s ∨ s.bearerChangedvalue = 0 → Valid s')
      (¬ ·.Abort) := by
  unfold startCapture
  dsimp only
  split
  · exact ends_error (not_abort_exit (by decide))
  · -- the trace files are opened unless the bearer has changed
    split
    · split
      · rename_i f hfile
        have hmsg : ∀ f ∈ ["time", "processed_events", "appid", "appname"],
            "Cannot write " ++ f ∉ abortMessages := by decide
        exact ends_error (not_abort_exit (hmsg f (List.mem_of_find?_eq_some hfile)))
      · refine ends_ok fun _ => ?_
        -- every index is -1, which names no entry
        have hunused : ∀ k (i : ℕ), ConnIndex.unused.slot k ≠ i := by
          intro k i heq
          have heq : (-1 : Int) = i := heq
          omega
        exact
          { undoable := ⟨fun k hk => absurd rfl hk, fun k hk => absurd rfl hk⟩
            numbers := ⟨[], AppTable.empty_numbers⟩
            entries := fun i hi => absurd hi (Nat.not_lt_zero i)
            port := fun k i heq => absurd heq (hunused k i)
            ip := fun k i heq => absurd heq (hunused k i) }
    · rename_i hbearer
      -- after a change of the bearer the indexes stay, over an emptied table
      refine ends_ok fun hs => ?_
      have hs : Valid s := hs.resolve_right hbearer
      exact
        { undoable := hs.undoable
          numbers := hs.numbers
          entries := fun i hi => absurd hi (Nat.not_lt_zero i)
          port := hs.port
          ip := hs.ip }

/-! ## Runs -/

/-- Every reachable state meets the invariant. -/
theorem reachable_valid {L : Limits} {s : State} (h : (attribution L).Reachable s) : Valid s := by
  refine h.invariant (fun s₀ hinit => ?_) (fun e s s' hs hstep => ?_)
  · rcases hinit with ⟨opens, hstart⟩
    exact startCapture_ends.1 s₀ hstart (Or.inr rfl)
  · rw [attribution_step] at hstep
    cases e with
    | restart opens =>
        refine startCapture_ends.1 s' (step_restart.mp hstep) (Or.inl ?_)
        exact ⟨hs.undoable, hs.numbers, hs.entries, hs.port, hs.ip⟩
    | packet fs pkt =>
        rcases step_packet.mp hstep with ⟨a, hcall⟩
        exact ((updatePacketCore_ends hs).1 (a, s') hcall).1

/-- For arrays of any size, no start and, after any run, no restart and no packet
takes one of the three branches, and a packet returns `-1` or an id in use. -/
theorem neverAborts (L : Limits) :
    (∀ opens, Ends (startCapture opens State.zero) (fun _ => True) (¬ ·.Abort)) ∧
      ∀ s, (attribution L).Reachable s →
        (∀ opens, Ends (startCapture opens
          { s with bearerChangedvalue := s.bearerChangedvalue + 1 }) (fun _ => True)
          (¬ ·.Abort)) ∧
        ∀ fs pkt, Ends (updatePacketCore L fs pkt s) ReturnOk (¬ ·.Abort) := by
  refine ⟨fun opens => startCapture_ends.mono fun _ _ => trivial, fun s hs => ⟨?_, ?_⟩⟩
  · intro opens
    exact startCapture_ends.mono fun _ _ => trivial
  · intro fs pkt
    exact (updatePacketCore_ends (reachable_valid hs)).mono fun _ h => h.2

/-- The one socket's packet again, after a bearer change: the slots still name its
entry of the emptied table, whose id is the only one in use. -/
theorem neverAborts_oneSocket :
    ∃ s r, (attribution srcLimits).Reachable s ∧ s.nConns = 0 ∧
      updatePacketCore srcLimits oneSocket oneSocketPacket s = .ok r ∧ r.1 = 0 ∧
      r.2.nApps = 1 ∧ ReturnOk r := by
  have hrun : ((attribution srcLimits).run
      [.packet oneSocket oneSocketPacket, .restart fun _ => true] State.started).any
      (fun s => s.nConns = 0 ∧ (updatePacketCore srcLimits oneSocket oneSocketPacket
        s).toOption.any fun r => r.1 = 0 ∧ r.2.nApps = 1) := by decide +kernel
  rcases (Option.any_eq_true _ _).mp hrun with ⟨s, hsteps, hs⟩
  rcases of_decide_eq_true hs with ⟨hn, hcall⟩
  rcases Lib.exists_ok_of_any hcall with ⟨r, hcall, hr⟩
  rcases of_decide_eq_true hr with ⟨hid, happs⟩
  have hreach := Lib.System.reachable_of_run (init_started srcLimits) hsteps
  have hends := ((neverAborts srcLimits).2 s hreach).2 oneSocket oneSocketPacket
  exact ⟨s, r, hreach, hn, hcall, hid, happs, hends.1 r hcall⟩

end MobiPerf.SocketProc
