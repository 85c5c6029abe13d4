import Mathlib.Algebra.GroupWithZero.Nat
import Mathlib.Data.Int.Order.Basic
import MobiPerf.Lib.Fallible
import MobiPerf.Lib.Freshest
import MobiPerf.Lib.Occurrence
import MobiPerf.SocketProc.ProcFs

/-!
# SocketProc.Table — rebuilding the connection table and its indexes

`UpdateProcessSocketInfo` undoes both indexes through their set lists, appends
the sockets of `/proc/net` to the table, joins them with processes and
applications, removes what is stale, duplicated or unknown, and indexes the
result by local port and by hashed remote address.

The two index builds (`UpdatePort2Connid`, `UpdateIP2Connid`) are one loop with
the key of an entry as a parameter, as are their two clean-ups in `Init`.
-/

namespace MobiPerf.SocketProc

/-! ## Index tables -/

/-- A conversion to `short`, the cell type of the index tables. -/
def toShort (i : ℕ) : Int := Int.bmod i 65536

/-- A table whose slots are all `-1` and that has nothing to undo, as the
`memset(…, 0xff, …)` of the first start leaves it. -/
def ConnIndex.unused : ConnIndex := ⟨fun _ => -1, []⟩

/-- The undo loop of `Init`: every slot in the set list goes back to `-1`. -/
def ConnIndex.reset (ix : ConnIndex) : ConnIndex :=
  ⟨ix.setList.foldl (fun slot k => Function.update slot k (-1)) ix.slot, []⟩

/-- One entry of an index build: its slot is taken when it is free and marked
`-2` when it is not. -/
def indexEntry (L : Limits) (key : ConnInfo → ℕ) (conns : ℕ → ConnInfo) (ix : ConnIndex)
    (i : ℕ) : Except Halt ConnIndex :=
  if (conns i).appid = -1 then
    .error (.exit "Invalid connection entry with appid=-1")
  else
    let k := key (conns i)
    if ix.slot k = -1 then
      if L.conns ≤ ix.setList.length then .error (.outOfBounds "connidSetList")
      else .ok ⟨Function.update ix.slot k (toShort i), ix.setList ++ [k]⟩
    else .ok { ix with slot := Function.update ix.slot k (-2) }

/-- The loop of an index build, entered with an empty set list only. -/
def updateConnid (L : Limits) (key : ConnInfo → ℕ) (msg : String) (t : ConnTable)
    (ix : ConnIndex) : Except Halt ConnIndex :=
  if ix.setList.length ≠ 0 then .error (.exit msg)
  else (List.range t.nConns).foldlM (indexEntry L key t.conns) ix

/-- The slot of an entry in `port2connid`. -/
def portKey (c : ConnInfo) : ℕ := c.localPort

/-- The slot of an entry in `ip2connid`. -/
def ipKey (c : ConnInfo) : ℕ := (ipHash c.remoteIP).toNat

/-- `UpdatePort2Connid`. -/
def updatePort2Connid (L : Limits) (t : ConnTable) (ix : ConnIndex) : Except Halt ConnIndex :=
  updateConnid L portKey "nPort2connidSet is not zero" t ix

/-- `UpdateIP2Connid`. -/
def updateIP2Connid (L : Limits) (t : ConnTable) (ix : ConnIndex) : Except Halt ConnIndex :=
  updateConnid L ipKey "nIP2connidSet is not zero" t ix

/-! ## Init -/

/-- `Init`: the counters start over and both indexes are undone. -/
def init (s : State) : State :=
  { s with
    nNewConns := 0
    nProcs := 0
    pids := []
    nConnsWithPID := 0
    iNode2connid := fun h => Function.update (s.iNode2connid h) 0 0
    port2connid := s.port2connid.reset
    ip2connid := s.ip2connid.reset }

/-! ## Applications -/

/-- `GetStringHash`. A name has less than 256 bytes, so that the sum fits an `int`. -/
def getStringHash (str : Bytes) : ℕ := (str.map (·.toNat)).sum

/-- `GetAppID`: the id of a name, a new one (written to the appname file) the
first time the name is seen. -/
def getAppID (procName : Bytes) (a : AppTable) : ℕ × AppTable :=
  let h := getStringHash procName
  let bin := h % appBins
  match (a.ppApps bin).find? fun info => info.hash = h && info.name = procName with
  | some info => (info.appid, a)
  | none =>
    (a.nApps,
      { ppApps := Function.update a.ppApps bin (⟨procName, h, a.nApps⟩ :: a.ppApps bin)
        nApps := a.nApps + 1
        appNames := a.appNames ++ [procName] })

/-- The state of the loop of `UpdateNames`. -/
abbrev NameLoop := ConnTable × ProcTable × AppTable

/-- One iteration of `UpdateNames`: an entry without application gets the one
of its process's name, if the name can be read. -/
def updateName (L : Limits) (fs : ProcFs) (st : NameLoop) (i : ℕ) : Except Halt NameLoop :=
  let (t, p, a) := st
  if (t.conns i).appid ≠ -1 then .ok st
  else do
    let (name, p) ← getProcName L fs (t.conns i).pid p
    match name with
    | none => .ok (t, p, a)
    | some name =>
      let (id, a) := getAppID name a
      let conn := { t.conns i with appid := (id : Int) }
      .ok ({ t with conns := Function.update t.conns i conn }, p, a)

/-- `UpdateNames`. -/
def updateNames (L : Limits) (fs : ProcFs) (st : NameLoop) : Except Halt NameLoop :=
  (List.range st.1.nConns).foldlM (updateName L fs) st

/-! ## Clean-up -/

/-- `conns[i].appid = -1`, the mark of an entry to be removed. -/
def dropConn (conns : ℕ → ConnInfo) (i : ℕ) : ℕ → ConnInfo :=
  Function.update conns i { conns i with appid := -1 }

/-- The first loop of `CleanConnectionInfo` at entry `i`: a stale entry is
marked; else, of it and the first earlier entry for the same connection, the
one used less recently is marked (the later one on a tie). -/
def markConn (curSec : Int) (conns : ℕ → ConnInfo) (i : ℕ) : ℕ → ConnInfo :=
  if (conns i).appid = -1 then conns
  else if curSec ≥ (conns i).tvSec + timeout then dropConn conns i
  else
    match (List.range i).find? fun j =>
        (conns j).appid ≠ -1 && (conns j).sameConn (conns i) with
    | none => conns
    | some j =>
      if (conns i).tvSec > (conns j).tvSec then dropConn conns j else dropConn conns i

/-- The second loop at entry `i`: an unmarked entry is copied down to `nConns2`. -/
def keepConn (st : (ℕ → ConnInfo) × ℕ) (i : ℕ) : (ℕ → ConnInfo) × ℕ :=
  let (conns, nConns2) := st
  if (conns i).appid ≠ -1 then
    (if i ≠ nConns2 then Function.update conns nConns2 (conns i) else conns, nConns2 + 1)
  else st

/-- `CleanConnectionInfo`. -/
def cleanConnectionInfo (curSec : Int) (t : ConnTable) : ConnTable :=
  let marked := (List.range t.nConns).foldl (markConn curSec) t.conns
  let (conns, nConns2) := (List.range t.nConns).foldl keepConn (marked, 0)
  { t with conns := conns, nConns := nConns2 }

/-! ## The whole refresh -/

/-- The four calls of `ReadConnections`. -/
def readAll (L : Limits) (fs : ProcFs) (curSec : Int) (t : ConnTable) : Except Halt ConnTable := do
  let t ← readConnections L fs "/proc/net/tcp" protTcp curSec t
  let t ← readConnections L fs "/proc/net/tcp6" protTcp curSec t
  let t ← readConnections L fs "/proc/net/udp" protUdp curSec t
  readConnections L fs "/proc/net/udp6" protUdp curSec t

/-- `UpdateProcessSocketInfo`. -/
def updateProcessSocketInfo (L : Limits) (fs : ProcFs) (curSec : Int) (s : State) :
    Except Halt State := do
  let s := init s
  let t ← readAll L fs curSec s.toConnTable
  let (t, p) ← attachProcessInfo L fs t s.toProcTable
  let (t, p, a) ← updateNames L fs (t, p, s.toAppTable)
  let t := cleanConnectionInfo curSec t
  let port2connid ← updatePort2Connid L t s.port2connid
  let ip2connid ← updateIP2Connid L t s.ip2connid
  .ok { s with
    toConnTable := t
    toProcTable := p
    toAppTable := a
    port2connid := port2connid
    ip2connid := ip2connid }

/-! ## What an index build leaves

The abstract content of an index is the occurrence table of the entries' keys
(`Lib.slotOf`); the source writes its markers as numbers. -/

/-- The number the source stores for a marker. -/
def encodeSlot : Lib.Slot → Int
  | .none => -1
  | .one i => i
  | .several => -2

/-- The index describes the entries `cs`: every slot is the marker of its key,
and the set list names each slot in use once. -/
structure Indexes (key : ConnInfo → ℕ) (cs : List ConnInfo) (ix : ConnIndex) : Prop where
  slot : ∀ k, ix.slot k = encodeSlot (Lib.slotOf (cs.map key) k)
  setList : Lib.Enumerates ix.setList (cs.map key)

/-- A number of an entry fits a `short`. -/
theorem toShort_eq {i : ℕ} (h : i < 32768) : toShort i = i := by
  unfold toShort
  rw [Int.bmod_def]
  split <;> omega

theorem encodeSlot_eq_neg_one_iff {m : Lib.Slot} : encodeSlot m = -1 ↔ m = .none := by
  cases m <;> simp [encodeSlot]

theorem encodeSlot_eq_neg_two_iff {m : Lib.Slot} : encodeSlot m = -2 ↔ m = .several := by
  cases m <;> simp [encodeSlot]

theorem encodeSlot_eq_natCast_iff {m : Lib.Slot} {i : ℕ} :
    encodeSlot m = i ↔ m = .one i := by
  cases m with
  | none => simp [encodeSlot]
  | one j =>
      simp only [encodeSlot, Lib.Slot.one.injEq]
      omega
  | several => simp [encodeSlot]

/-- The unused index describes the empty table. -/
theorem indexes_unused (key : ConnInfo → ℕ) : Indexes key [] ConnIndex.unused where
  slot := fun _ => by simp [ConnIndex.unused, encodeSlot]
  setList := Lib.enumerates_nil

/-- The set list holds the slots that are in use. -/
theorem Indexes.mem_setList_iff {key : ConnInfo → ℕ} {cs : List ConnInfo} {ix : ConnIndex}
    (h : Indexes key cs ix) {k : ℕ} : k ∈ ix.setList ↔ ix.slot k ≠ -1 := by
  rw [h.setList.2 k, h.slot k, Ne, encodeSlot_eq_neg_one_iff, Lib.slotOf_eq_none_iff, not_not]

/-- One iteration of the build extends the description by its entry. -/
theorem indexEntry_indexes {L : Limits} {key : ConnInfo → ℕ} {conns : ℕ → ConnInfo}
    {ix ix' : ConnIndex} {i : ℕ} (hi : i < 32768)
    (hix : Indexes key ((List.range i).map conns) ix)
    (h : indexEntry L key conns ix i = .ok ix') :
    Indexes key ((List.range (i + 1)).map conns) ix' ∧ (conns i).appid ≠ -1 := by
  have hkeys : ((List.range (i + 1)).map conns).map key =
      ((List.range i).map conns).map key ++ [key (conns i)] := by
    simp [List.range_succ]
  have hlen : (((List.range i).map conns).map key).length = i := by simp
  unfold indexEntry at h
  split at h
  · cases h
  · rename_i happ
    refine ⟨?_, happ⟩
    dsimp only at h
    split at h
    · rename_i hslot
      -- a free slot: the key is new
      have hnone : Lib.slotOf (((List.range i).map conns).map key) (key (conns i)) = .none := by
        rw [← encodeSlot_eq_neg_one_iff, ← hix.slot]
        exact hslot
      split at h
      · cases h
      · cases h
        refine ⟨fun k => ?_, ?_⟩
        · rw [hkeys]
          by_cases hk : k = key (conns i)
          · subst hk
            rw [Lib.slotOf_append_self, if_pos hnone, hlen]
            simp [encodeSlot, toShort_eq hi]
          · rw [Lib.slotOf_append_of_ne hk, ← hix.slot]
            exact Function.update_of_ne hk _ _
        · rw [hkeys]
          exact hix.setList.append_of_notMem (Lib.slotOf_eq_none_iff.mp hnone)
    · rename_i hslot
      -- the slot is in use: an earlier entry has the key
      have hsome : Lib.slotOf (((List.range i).map conns).map key) (key (conns i)) ≠ .none := by
        rw [Ne, ← encodeSlot_eq_neg_one_iff, ← hix.slot]
        exact hslot
      cases h
      refine ⟨fun k => ?_, ?_⟩
      · rw [hkeys]
        by_cases hk : k = key (conns i)
        · subst hk
          rw [Lib.slotOf_append_self, if_neg hsome]
          simp [encodeSlot]
        · rw [Lib.slotOf_append_of_ne hk, ← hix.slot]
          exact Function.update_of_ne hk _ _
      · rw [hkeys]
        refine hix.setList.append_of_mem ?_
        by_contra hmem
        exact hsome (Lib.slotOf_eq_none_iff.mpr hmem)

/-- A build that starts from an unused index describes the table, every entry
of which then has an application. -/
theorem updateConnid_indexes {L : Limits} {key : ConnInfo → ℕ} {msg : String} {t : ConnTable}
    {ix ix' : ConnIndex} (hn : t.nConns ≤ 32768) (hix : Indexes key [] ix)
    (h : updateConnid L key msg t ix = .ok ix') :
    Indexes key t.entries ix' ∧ ∀ c ∈ t.entries, c.appid ≠ -1 := by
  unfold updateConnid at h
  split at h
  · cases h
  · have hrun := Lib.foldlM_range_induct
      (P := fun k ix => Indexes key ((List.range k).map t.conns) ix ∧
        ∀ j < k, (t.conns j).appid ≠ -1) ?_ ⟨hix, by omega⟩ h
    · refine ⟨hrun.1, fun c hc => ?_⟩
      rcases ConnTable.mem_entries.mp hc with ⟨j, hj, rfl⟩
      exact hrun.2 j hj
    · rintro k ix₁ ix₂ hk ⟨hdesc, happ⟩ hbody
      rcases indexEntry_indexes (by omega) hdesc hbody with ⟨hdesc', happ'⟩
      refine ⟨hdesc', fun j hj => ?_⟩
      rcases Nat.lt_succ_iff_lt_or_eq.mp hj with hlt | rfl
      · exact happ j hlt
      · exact happ'

/-! ## What a clean-up leaves -/

/-- The slots of a list are freed, and no others. -/
theorem foldl_update_eq (l : List ℕ) (slot : ℕ → Int) (k : ℕ) :
    l.foldl (fun slot k => Function.update slot k (-1)) slot k =
      if k ∈ l then -1 else slot k := by
  induction l generalizing slot with
  | nil => simp
  | cons a l ih =>
      rw [List.foldl_cons, ih]
      by_cases hk : k = a
      · subst hk
        simp
      · simp [hk]

/-- Undoing the slots of the set list frees every slot, as long as the list
names all that are in use. -/
theorem ConnIndex.reset_indexes {ix : ConnIndex} (key : ConnInfo → ℕ)
    (h : ∀ k, ix.slot k ≠ -1 → k ∈ ix.setList) : Indexes key [] ix.reset where
  slot := by
    intro k
    show ix.setList.foldl _ ix.slot k = _
    rw [foldl_update_eq]
    by_cases hk : k ∈ ix.setList
    · simp [hk, encodeSlot]
    · have hfree : ix.slot k = -1 := by
        by_contra hne
        exact hk (h k hne)
      simp [hk, hfree, encodeSlot]
  setList := Lib.enumerates_nil

/-! ## What naming leaves -/

/-- One iteration reads a name, if the entry has no application yet, and writes
nothing but the application of the entry. -/
theorem updateName_cases {L : Limits} {fs : ProcFs} {st st' : NameLoop} {i : ℕ}
    (h : updateName L fs st i = .ok st') :
    (st'.2.1 = st.2.1 ∨
        ∃ name, getProcName L fs (st.1.conns i).pid st.2.1 = .ok (name, st'.2.1)) ∧
      ∃ id, st'.1 =
        { st.1 with conns := Function.update st.1.conns i { st.1.conns i with appid := id } } := by
  rcases st with ⟨t, p, a⟩
  unfold updateName at h
  dsimp only at h
  split at h
  · cases h
    exact ⟨.inl rfl, (t.conns i).appid, by simp⟩
  · rcases Lib.except_bind_eq_ok.mp h with ⟨⟨name, p'⟩, hname, h⟩
    dsimp only at h
    split at h
    · cases h
      exact ⟨.inr ⟨_, hname⟩, (t.conns i).appid, by simp⟩
    · cases h
      exact ⟨.inr ⟨_, hname⟩, _, rfl⟩

/-- Naming an entry counts none. -/
theorem updateName_nConns {L : Limits} {fs : ProcFs} {st st' : NameLoop} {i : ℕ}
    (h : updateName L fs st i = .ok st') : st'.1.nConns = st.1.nConns := by
  obtain ⟨-, id, hconns⟩ := updateName_cases h
  rw [hconns]

theorem updateNames_nConns {L : Limits} {fs : ProcFs} {st st' : NameLoop}
    (h : updateNames L fs st = .ok st') : st'.1.nConns = st.1.nConns := by
  refine Lib.foldlM_preserves (P := fun s : NameLoop => s.1.nConns = st.1.nConns) ?_ rfl h
  intro s i s' hs hbody
  rw [updateName_nConns hbody, hs]

/-! ## What the removal of entries leaves -/

/-- The connection an entry describes. -/
def ConnInfo.fiveTuple (c : ConnInfo) : DWORD × DWORD × ℕ × ℕ × ℕ :=
  (c.localIP, c.remoteIP, c.localPort, c.remotePort, c.protocol)

/-- Two entries are of one connection when their five-tuples are equal. -/
theorem ConnInfo.sameConn_iff {a b : ConnInfo} :
    a.sameConn b = true ↔ a.fiveTuple = b.fiveTuple := by
  simp [sameConn, fiveTuple, and_assoc]

/-- An entry that a clean-up may keep. -/
def ConnInfo.Usable (curSec : Int) (c : ConnInfo) : Prop :=
  c.appid ≠ -1 ∧ c.Fresh curSec

instance (curSec : Int) (c : ConnInfo) : Decidable (c.Usable curSec) :=
  inferInstanceAs (Decidable (_ ∧ _))

/-- The unmarked ones of the first `k` entries. -/
def unmarked (conns : ℕ → ConnInfo) (k : ℕ) : List ConnInfo :=
  ((List.range k).map conns).filter fun c => c.appid ≠ -1

/-- The usable ones of the first `k` entries. -/
def usable (curSec : Int) (conns : ℕ → ConnInfo) (k : ℕ) : List ConnInfo :=
  ((List.range k).map conns).filter fun c => c.Usable curSec

/-- One more entry is behind the others, unless it is marked. -/
theorem unmarked_succ (conns : ℕ → ConnInfo) (k : ℕ) :
    unmarked conns (k + 1) =
      if (conns k).appid ≠ -1 then unmarked conns k ++ [conns k] else unmarked conns k := by
  unfold unmarked
  rw [List.range_succ, List.map_append, List.filter_append]
  split
  · rename_i happ
    simp [happ]
  · rename_i happ
    simp [not_not.mp happ]

/-- One more entry is behind the others, if it is usable. -/
theorem usable_succ (curSec : Int) (conns : ℕ → ConnInfo) (k : ℕ) :
    usable curSec conns (k + 1) =
      if (conns k).Usable curSec then usable curSec conns k ++ [conns k]
      else usable curSec conns k := by
  unfold usable
  rw [List.range_succ, List.map_append, List.filter_append]
  split
  · rename_i huse
    simp [huse]
  · rename_i huse
    simp [huse]

/-- The entries before `k` decide. -/
theorem unmarked_congr {conns conns' : ℕ → ConnInfo} {k : ℕ} (h : ∀ i < k, conns' i = conns i) :
    unmarked conns' k = unmarked conns k := by
  unfold unmarked
  rw [List.map_congr_left fun i hi => h i (List.mem_range.mp hi)]

/-- The unmarked entries by their numbers. -/
theorem unmarked_eq_map (conns : ℕ → ConnInfo) (k : ℕ) :
    unmarked conns k =
      ((List.range k).filter fun i => (conns i).appid ≠ -1).map conns := by
  unfold unmarked
  rw [List.filter_map]
  rfl

/-- Marking entry `k` leaves the first `k` as they are. -/
theorem unmarked_dropConn_self (conns : ℕ → ConnInfo) (k : ℕ) :
    unmarked (dropConn conns k) (k + 1) = unmarked conns k := by
  rw [unmarked_succ, if_neg (by simp [dropConn])]
  refine unmarked_congr fun i hi => ?_
  unfold dropConn
  rw [Function.update_of_ne (by omega)]

/-- Marking an earlier entry takes it out, the only one of its connection. -/
theorem unmarked_dropConn {conns : ℕ → ConnInfo} {j k : ℕ} (hj : j < k)
    (happ : (conns j).appid ≠ -1) (hnodup : ((unmarked conns k).map (·.fiveTuple)).Nodup) :
    unmarked (dropConn conns j) k =
      (unmarked conns k).filter fun c => c.fiveTuple ≠ (conns j).fiveTuple := by
  -- tuples are distinct, so `j` is the only entry with its own
  have hinj : ∀ i < k, (conns i).appid ≠ -1 → (conns i).fiveTuple = (conns j).fiveTuple →
      i = j := by
    intro i hi happi heq
    rw [unmarked_eq_map, List.map_map] at hnodup
    exact List.inj_on_of_nodup_map hnodup (by simp [hi, happi]) (by simp [hj, happ]) heq
  -- the entries that stay are those with another tuple
  have hkept : ((List.range k).filter fun i => (dropConn conns j i).appid ≠ -1) =
      (List.range k).filter fun i =>
        decide ((conns i).fiveTuple ≠ (conns j).fiveTuple) && decide ((conns i).appid ≠ -1) := by
    refine List.filter_congr fun i hi => ?_
    have hi : i < k := List.mem_range.mp hi
    unfold dropConn
    by_cases hij : i = j
    · subst hij
      simp
    · have hne : (conns i).appid ≠ -1 → (conns i).fiveTuple ≠ (conns j).fiveTuple :=
        fun happi heq => hij (hinj i hi happi heq)
      rw [Function.update_of_ne hij]
      by_cases happi : (conns i).appid = -1
      · simp [happi]
      · simp [happi, hne happi]
  rw [unmarked_eq_map, unmarked_eq_map, List.filter_map, List.filter_filter, hkept]
  refine List.map_congr_left fun i hi => ?_
  have hij : i ≠ j := by
    rintro rfl
    simp at hi
  unfold dropConn
  rw [Function.update_of_ne hij]

/-- The marking loop after `k` entries: the entries still to be seen are
untouched, and of those seen the unmarked ones are the newest usable entry of
each connection. -/
structure Marked (curSec : Int) (conns : ℕ → ConnInfo) (k : ℕ) (conns' : ℕ → ConnInfo) : Prop where
  rest : ∀ i, k ≤ i → conns' i = conns i
  seen : unmarked conns' k =
    Lib.freshest ConnInfo.fiveTuple ConnInfo.tvSec (usable curSec conns k)

/-- The search for an earlier entry of the same connection is one among the
entries kept so far. -/
theorem find_unmarked (conns : ℕ → ConnInfo) (k : ℕ) (c : ConnInfo) :
    (unmarked conns k).find? (fun d => d.fiveTuple = c.fiveTuple) =
      ((List.range k).find? fun j =>
        (conns j).appid ≠ -1 && (conns j).sameConn c).map conns := by
  have hsame : ∀ d : ConnInfo, decide (d.fiveTuple = c.fiveTuple) = d.sameConn c := by
    intro d
    rw [Bool.eq_iff_iff, decide_eq_true_iff]
    exact ConnInfo.sameConn_iff.symm
  unfold unmarked
  rw [List.find?_filter, List.find?_map]
  simp only [hsame, Function.comp_def, Bool.decide_and, Bool.decide_eq_true]

/-- The drop leaves the entries that have not been looked at. -/
theorem dropConn_rest {conns conns' : ℕ → ConnInfo} {j k : ℕ}
    (h : ∀ i, k ≤ i → conns' i = conns i) (hj : j ≤ k) :
    ∀ i, k + 1 ≤ i → dropConn conns' j i = conns i := by
  intro i hi
  unfold dropConn
  rw [Function.update_of_ne (by omega)]
  exact h i (by omega)

/-- A pass of the marking loop does what `keepNewer` does. -/
theorem markConn_marked {curSec : Int} {conns conns' : ℕ → ConnInfo} {k : ℕ}
    (h : Marked curSec conns k conns') :
    Marked curSec conns (k + 1) (markConn curSec conns' k) := by
  have hk : conns' k = conns k := h.rest k (Nat.le_refl k)
  have hkept : Lib.IsFreshest ConnInfo.fiveTuple ConnInfo.tvSec (usable curSec conns k)
      (unmarked conns' k) := by
    rw [h.seen]
    exact Lib.freshest_isFreshest _
  unfold markConn
  split
  · rename_i happ
    refine ⟨fun i hi => h.rest i (by omega), ?_⟩
    rw [unmarked_succ, if_neg (not_not.mpr happ), usable_succ, if_neg, h.seen]
    rw [← hk]
    exact fun huse => huse.1 happ
  · rename_i happ
    split
    · rename_i hage
      refine ⟨dropConn_rest h.rest (Nat.le_refl k), ?_⟩
      rw [unmarked_dropConn_self, usable_succ, if_neg, h.seen]
      rw [← hk]
      exact fun huse => absurd huse.2 (Int.not_lt.mpr hage)
    · rename_i hage
      have huse : (conns k).Usable curSec := hk ▸ ⟨happ, Int.not_le.mp hage⟩
      have hfind := find_unmarked conns' k (conns' k)
      -- the entry is read by the specification as well
      have hspec : Lib.freshest ConnInfo.fiveTuple ConnInfo.tvSec (usable curSec conns (k + 1)) =
          Lib.keepNewer ConnInfo.fiveTuple ConnInfo.tvSec (unmarked conns' k) (conns' k) := by
        rw [usable_succ, if_pos huse, Lib.freshest_append, ← h.seen, hk]
      split
      · rename_i hnone
        rw [hnone] at hfind
        refine ⟨fun i hi => h.rest i (by omega), ?_⟩
        rw [hspec, unmarked_succ, if_pos happ]
        unfold Lib.keepNewer
        rw [hfind]
        rfl
      · rename_i j hsome
        rw [hsome] at hfind
        have hj : j < k := List.mem_range.mp (List.mem_of_find?_eq_some hsome)
        have hmatch := List.find?_some hsome
        rw [Bool.and_eq_true, decide_eq_true_iff] at hmatch
        rcases hmatch with ⟨happj, hsame⟩
        have htuple : (conns' j).fiveTuple = (conns' k).fiveTuple :=
          ConnInfo.sameConn_iff.mp hsame
        have hread : Lib.keepNewer ConnInfo.fiveTuple ConnInfo.tvSec (unmarked conns' k)
            (conns' k) =
            if (conns' j).tvSec < (conns' k).tvSec then
              ((unmarked conns' k).filter fun e => e.fiveTuple ≠ (conns' k).fiveTuple) ++ [conns' k]
            else unmarked conns' k := by
          unfold Lib.keepNewer
          rw [hfind]
          rfl
        split
        · rename_i hlt
          refine ⟨dropConn_rest h.rest (Nat.le_of_lt hj), ?_⟩
          have hself : dropConn conns' j k = conns' k := by
            unfold dropConn
            rw [Function.update_of_ne (by omega)]
          rw [hspec, hread, if_pos hlt, unmarked_succ, hself, if_pos happ,
            unmarked_dropConn hj happj hkept.distinct, htuple]
        · rename_i hlt
          refine ⟨dropConn_rest h.rest (Nat.le_refl k), ?_⟩
          rw [hspec, hread, if_neg hlt, unmarked_dropConn_self]

/-- The copying loop after `k` entries: the unmarked ones of the first `k` are
at the front, in order, and the entries still to be read are untouched. -/
structure Compacted (conns : ℕ → ConnInfo) (k : ℕ) (st : (ℕ → ConnInfo) × ℕ) : Prop where
  le : st.2 ≤ k
  rest : ∀ i, k ≤ i → st.1 i = conns i
  front : (List.range st.2).map st.1 =
    ((List.range k).map conns).filter fun c => c.appid ≠ -1

/-- A pass of the compacting loop moves one entry that is kept. -/
theorem keepConn_compacted {conns : ℕ → ConnInfo} {k : ℕ} {st : (ℕ → ConnInfo) × ℕ}
    (h : Compacted conns k st) : Compacted conns (k + 1) (keepConn st k) := by
  rcases st with ⟨conns', n⟩
  rcases h with ⟨hle, hrest, hfront⟩
  dsimp only at hle hrest hfront
  have hk : conns' k = conns k := hrest k (Nat.le_refl k)
  unfold keepConn
  dsimp only
  rw [hk]
  split
  · rename_i happ
    -- the copy goes to cell `n`, at or below the one being read
    have hcell : (if k ≠ n then Function.update conns' n (conns k) else conns') =
        Function.update conns' n (conns k) := by
      split
      · rfl
      · rename_i heq
        have heq : k = n := not_not.mp heq
        rw [← heq, ← hk, Function.update_eq_self]
    rw [hcell]
    refine ⟨Nat.succ_le_succ hle, fun i hi => ?_, ?_⟩
    · dsimp only
      rw [Function.update_of_ne (by omega)]
      exact hrest i (by omega)
    · dsimp only
      have hprefix : (List.range n).map (Function.update conns' n (conns k)) =
          (List.range n).map conns' := by
        refine List.map_congr_left fun i hi => ?_
        rw [Function.update_of_ne (by rw [List.mem_range] at hi; omega)]
      rw [List.range_succ, List.map_append, hprefix, hfront, List.range_succ, List.map_append,
        List.filter_append]
      simp [happ]
  · rename_i happ
    refine ⟨Nat.le_succ_of_le hle, fun i hi => hrest i (by omega), ?_⟩
    have happ : (conns k).appid = -1 := not_not.mp happ
    rw [hfront, List.range_succ, List.map_append, List.filter_append]
    simp [happ]

/-- The entries as the first loop of `CleanConnectionInfo` leaves them. -/
def markAll (curSec : Int) (t : ConnTable) : ℕ → ConnInfo :=
  (List.range t.nConns).foldl (markConn curSec) t.conns

/-- The whole marking loop. -/
theorem markAll_marked (curSec : Int) (t : ConnTable) :
    Marked curSec t.conns t.nConns (markAll curSec t) :=
  Lib.foldl_range_induct (P := Marked curSec t.conns) (fun _ _ _ h => markConn_marked h)
    ⟨fun _ _ => rfl, rfl⟩

/-- What a clean-up leaves are the entries that were not marked, in order. -/
theorem cleanConnectionInfo_unmarked (curSec : Int) (t : ConnTable) :
    (cleanConnectionInfo curSec t).nConns ≤ t.nConns ∧
      (cleanConnectionInfo curSec t).entries = unmarked (markAll curSec t) t.nConns := by
  have hcomp := Lib.foldl_range_induct (n := t.nConns) (P := Compacted (markAll curSec t))
    (fun _ _ _ h => keepConn_compacted h) (s := (markAll curSec t, 0))
    ⟨Nat.le_refl 0, fun _ _ => rfl, rfl⟩
  exact ⟨hcomp.le, hcomp.front⟩

/-- A clean-up computes the newest usable entry of each connection. -/
theorem cleanConnectionInfo_entries (curSec : Int) (t : ConnTable) :
    (cleanConnectionInfo curSec t).entries =
      Lib.freshest ConnInfo.fiveTuple ConnInfo.tvSec
        (t.entries.filter fun c => c.Usable curSec) :=
  (cleanConnectionInfo_unmarked curSec t).2.trans (markAll_marked curSec t).seen

/-- What remains is fresh, has an application and was in the table before. -/
theorem cleanConnectionInfo_mem {curSec : Int} {t : ConnTable} {c : ConnInfo}
    (h : c ∈ (cleanConnectionInfo curSec t).entries) :
    c.appid ≠ -1 ∧ c.Fresh curSec ∧ c ∈ t.entries := by
  rw [cleanConnectionInfo_entries] at h
  have hmem := (Lib.freshest_isFreshest _).sublist.subset h
  rcases List.mem_filter.mp hmem with ⟨hmem, huse⟩
  have huse : c.Usable curSec := of_decide_eq_true huse
  exact ⟨huse.1, huse.2, hmem⟩

/-- A clean-up adds no entry. -/
theorem cleanConnectionInfo_nConns_le (curSec : Int) (t : ConnTable) :
    (cleanConnectionInfo curSec t).nConns ≤ t.nConns := by
  exact (cleanConnectionInfo_unmarked curSec t).1

/-- A clean-up keeps exactly the freshest entry of each connection: what remains
has an application and is not timed out, is one entry for each connection and in
the order it had; and for each connection with such an entry, one of the newest of
them remains as it was. -/
theorem cleanConnectionInfo_freshest (curSec : Int) (t : ConnTable) :
    (∀ c ∈ (cleanConnectionInfo curSec t).entries, c.appid ≠ -1 ∧ c.Fresh curSec) ∧
      (cleanConnectionInfo curSec t).entries.Pairwise (fun a b => ¬ a.sameConn b) ∧
      (∀ c ∈ t.entries, c.appid ≠ -1 → c.Fresh curSec →
        ∃ d ∈ t.entries,
          ((cleanConnectionInfo curSec t).entries.filter fun e => e.sameConn c) = [d] ∧
          ∀ e ∈ t.entries, e.appid ≠ -1 → e.Fresh curSec → e.sameConn c → e.tvSec ≤ d.tvSec) ∧
      (cleanConnectionInfo curSec t).entries.Sublist t.entries := by
  have hfresh : Lib.IsFreshest ConnInfo.fiveTuple ConnInfo.tvSec
      (t.entries.filter fun c => c.Usable curSec) (cleanConnectionInfo curSec t).entries := by
    rw [cleanConnectionInfo_entries]
    exact Lib.freshest_isFreshest _
  refine ⟨fun c hc => ?_, ?_, fun c hc happ hage => ?_, hfresh.sublist.trans List.filter_sublist⟩
  · rcases cleanConnectionInfo_mem hc with ⟨happ, hage, _⟩
    exact ⟨happ, hage⟩
  · refine (List.pairwise_map.mp hfresh.distinct).imp fun hne hsame => ?_
    exact hne (ConnInfo.sameConn_iff.mp hsame)
  · have hmem : ∀ e, e ∈ (t.entries.filter fun c => c.Usable curSec) ↔
        e ∈ t.entries ∧ e.appid ≠ -1 ∧ e.Fresh curSec := by
      intro e
      rw [List.mem_filter, decide_eq_true_iff]
      rfl
    rcases hfresh.filter_eq ((hmem c).mpr ⟨hc, happ, hage⟩) with ⟨d, hd, hfilter, hnewest⟩
    refine ⟨d, (cleanConnectionInfo_mem hd).2.2, ?_, fun e he happe hagee hsame => ?_⟩
    · rw [← hfilter]
      refine List.filter_congr fun e _ => ?_
      rw [Bool.eq_iff_iff, decide_eq_true_iff]
      exact ConnInfo.sameConn_iff
    · exact hnewest e ((hmem e).mpr ⟨he, happe, hagee⟩) (ConnInfo.sameConn_iff.mp hsame)

/-! ## What a refresh leaves -/

/-- Reading the files fills the table at most. -/
theorem readAll_nConns_le {L : Limits} {fs : ProcFs} {curSec : Int} {t t' : ConnTable}
    (ht : t.nConns ≤ L.conns) (h : readAll L fs curSec t = .ok t') : t'.nConns ≤ L.conns := by
  unfold readAll at h
  rcases Lib.except_bind_eq_ok.mp h with ⟨t₁, h₁, h⟩
  rcases Lib.except_bind_eq_ok.mp h with ⟨t₂, h₂, h⟩
  rcases Lib.except_bind_eq_ok.mp h with ⟨t₃, h₃, h⟩
  exact readConnections_nConns_le (readConnections_nConns_le (readConnections_nConns_le
    (readConnections_nConns_le ht h₁) h₂) h₃) h

/-- Both indexes describe the table, whose entries all have an application. -/
structure Indexed (s : State) : Prop where
  port : Indexes portKey s.entries s.port2connid
  ip : Indexes ipKey s.entries s.ip2connid
  appid : ∀ c ∈ s.entries, c.appid ≠ -1

/-- Each index can be undone: its set list names every slot in use. -/
def Undoable (s : State) : Prop :=
  (∀ k, s.port2connid.slot k ≠ -1 → k ∈ s.port2connid.setList) ∧
    ∀ k, s.ip2connid.slot k ≠ -1 → k ∈ s.ip2connid.setList

/-- What the indexes name can be taken back. -/
theorem Indexed.undoable {s : State} (h : Indexed s) : Undoable s :=
  ⟨fun _ => h.port.mem_setList_iff.mpr, fun _ => h.ip.mem_setList_iff.mpr⟩

/-- A refresh that returns leaves both indexes describing the new table, and a
table of fresh entries, whatever the indexes said before. -/
theorem updateProcessSocketInfo_spec {L : Limits} {fs : ProcFs} {curSec : Int} {s s' : State}
    (hL : L.conns ≤ 32768) (hn : s.nConns ≤ L.conns) (hundo : Undoable s)
    (h : updateProcessSocketInfo L fs curSec s = .ok s') :
    Indexed s' ∧ s'.nConns ≤ L.conns ∧ (∀ c ∈ s'.entries, c.Fresh curSec) ∧
      s'.bearerChangedvalue = s.bearerChangedvalue := by
  unfold updateProcessSocketInfo at h
  dsimp only at h
  rcases Lib.except_bind_eq_ok.mp h with ⟨t₁, hread, h⟩
  rcases Lib.except_bind_eq_ok.mp h with ⟨⟨t₂, p⟩, hattach, h⟩
  rcases Lib.except_bind_eq_ok.mp h with ⟨⟨t₃, p', a⟩, hnames, h⟩
  rcases Lib.except_bind_eq_ok.mp h with ⟨ix₁, hport, h⟩
  rcases Lib.except_bind_eq_ok.mp h with ⟨ix₂, hip, h⟩
  cases h
  have hle₁ : t₁.nConns ≤ L.conns := readAll_nConns_le (t := (init s).toConnTable) hn hread
  have hle₂ : t₂.nConns ≤ L.conns := by
    rw [(attachProcessInfo_sameButPid hattach).1]
    exact hle₁
  have hle₃ : t₃.nConns ≤ L.conns := by
    have heq := updateNames_nConns hnames
    exact heq ▸ hle₂
  have hle : (cleanConnectionInfo curSec t₃).nConns ≤ L.conns :=
    Nat.le_trans (cleanConnectionInfo_nConns_le curSec t₃) hle₃
  obtain ⟨hport', happ⟩ := updateConnid_indexes (Nat.le_trans hle hL)
    (ConnIndex.reset_indexes portKey hundo.1) hport
  obtain ⟨hip', _⟩ := updateConnid_indexes (Nat.le_trans hle hL)
    (ConnIndex.reset_indexes ipKey hundo.2) hip
  exact ⟨⟨hport', hip', happ⟩, hle, fun c hc => (cleanConnectionInfo_mem hc).2.1, rfl⟩

end MobiPerf.SocketProc
