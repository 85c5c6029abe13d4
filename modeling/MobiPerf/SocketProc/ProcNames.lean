import MobiPerf.Lib.Transition
import MobiPerf.SocketProc.Table

/-!
# SocketProc.ProcNames — whose name `GetProcName` returns

The names read since the last `Init` are kept in `procs`. What they should be is
a cache (`NameCache`) from process ids to names: a call returns the cached name,
or reads the first string of the command line and caches it when its first byte
is printable.

`GetProcName` writes the name into the next slot and counts the slot only when
the name is printable, so an empty command line leaves in the slot what an
earlier read or refresh wrote there.

* `getProcName_lookupName_iff`: after any run of calls and refreshes that met
  the condition, the next call does what the cache says exactly when it meets it.
-/

namespace MobiPerf.SocketProc

open Lib (System)

/-! ## The specification -/

/-- The first string of a command line, as far as the buffer of a name holds it. -/
def firstString (content : Bytes) : Bytes := cString (content.take 255)

/-- A name that can be returned starts with a printable byte. -/
def Printable (name : Bytes) : Prop := 32 ≤ name.headD 0

instance (name : Bytes) : Decidable (Printable name) := inferInstanceAs (Decidable (_ ≤ _))

/-- A name, if it can be returned. -/
def returned (name : Bytes) : Option Bytes := if Printable name then some name else none

/-- The names read since the last `Init`. -/
abbrev NameCache := Int → Option Bytes

/-- What a call returns for process `pid`. -/
def lookupName (fs : ProcFs) (pid : Int) (cache : NameCache) : Option Bytes :=
  match cache pid with
  | some name => some name
  | none =>
    match fs.cmdline pid with
    | none => none
    | some content => returned (firstString content)

/-! ## Runs -/

/-- The part of `Init` that concerns processes. -/
def ProcTable.reset (p : ProcTable) : ProcTable := { p with nProcs := 0, pids := [] }

inductive NameEvent where
  | refresh
  | call (fs : ProcFs) (pid : Int)

/-- One event; the cache beside the table is what it should hold. -/
def nameStep (L : Limits) : NameEvent → ProcTable × NameCache → Option (ProcTable × NameCache)
  | .refresh, (p, _) => some (p.reset, fun _ => none)
  | .call fs pid, (p, cache) =>
    (getProcName L fs pid p).toOption.map fun r =>
      (r.2, Function.update cache pid (lookupName fs pid cache))

/-- All sequences of calls and refreshes, from zeroed memory. -/
def names (L : Limits) : System (ProcTable × NameCache) NameEvent where
  Init s := s = (State.zero.toProcTable, fun _ => none)
  step := nameStep L

/-- The name of `pid` has been read since the last `Init`. -/
def ProcTable.Cached (p : ProcTable) (pid : Int) : Prop :=
  ∃ i < p.nProcs, (p.procs i).pid = pid

/-- A command line that is read, is read into a slot that exists; when it is
empty, no name is left in the slot; and `fgets` does not stop within its first
string. -/
def ReadsOwnName (L : Limits) (fs : ProcFs) (pid : Int) (p : ProcTable) : Prop :=
  p.Cached pid ∨ ∀ content, fs.cmdline pid = some content →
    p.nProcs < L.procs ∧
      (content = [] → ¬ Printable (p.procs p.nProcs).name) ∧
      (Printable content → 10 ∉ (firstString content).dropLast)

/-- The condition on an event. -/
def NameEvent.Ok (L : Limits) : NameEvent → ProcTable × NameCache → Prop
  | .refresh, _ => True
  | .call fs pid, (p, _) => ReadsOwnName L fs pid p

/-! ## Reading a line -/

theorem cString_cons (b : UInt8) (bs : Bytes) :
    cString (b :: bs) = if b = 0 then [] else b :: cString bs := by
  unfold cString
  by_cases hb : b = 0
  · simp [hb]
  · simp [hb]

/-- A line read into the buffer has the first string of the text, unless a
newline inside it ends the line. -/
theorem cString_takeLine_eq_iff (n : ℕ) (bs : Bytes) :
    cString (takeLine n bs).1 = cString (bs.take n) ↔ 10 ∉ (cString (bs.take n)).dropLast := by
  induction n generalizing bs with
  | zero => simp [takeLine, cString]
  | succ n ih =>
      cases bs with
      | nil => simp [takeLine, cString]
      | cons b bs =>
          rw [List.take_succ_cons, cString_cons]
          unfold takeLine
          by_cases hnl : b = 10
          · -- the line ends here, and so must the string
            rw [if_pos hnl, hnl, if_neg (by decide)]
            cases htail : cString (bs.take n) with
            | nil => simp [cString]
            | cons c cs => simp [cString]
          · rw [if_neg hnl]
            show cString (b :: (takeLine n bs).1) = _ ↔ _
            rw [cString_cons]
            by_cases hb : b = 0
            · simp [hb]
            · rw [if_neg hb, if_neg hb]
              have htail := ih bs
              cases hrest : cString (bs.take n) with
              | nil =>
                  rw [hrest] at htail
                  simpa using htail
              | cons c cs =>
                  rw [hrest] at htail
                  simp only [List.cons.injEq, true_and, List.dropLast_cons_cons, List.mem_cons,
                    not_or]
                  rw [htail]
                  simp [Ne.symm hnl]

/-- A printable first byte is that of the first string, and of the line read. -/
theorem printable_cString_take (n : ℕ) (bs : Bytes) :
    Printable (cString (bs.take (n + 1))) ↔ Printable bs := by
  cases bs with
  | nil => simp [cString]
  | cons b bs =>
      unfold Printable cString
      by_cases hb : b = 0
      · simp [hb]
      · simp [hb]

theorem printable_cString_takeLine (n : ℕ) (bs : Bytes) :
    Printable (cString (takeLine (n + 1) bs).1) ↔ Printable bs := by
  cases bs with
  | nil => simp [cString, takeLine]
  | cons b bs =>
      unfold Printable cString takeLine
      by_cases hnl : b = 10
      · simp [hnl]
      · rw [if_neg hnl]
        by_cases hb : b = 0
        · simp [hb]
        · simp [hb]

/-! ## What the table holds -/

/-- The slots counted. -/
def ProcTable.counted (p : ProcTable) : List ProcName := (List.range p.nProcs).map p.procs

/-- The slots counted hold exactly the cache. -/
def Holds (p : ProcTable) (cache : NameCache) : Prop :=
  ∀ pid, cache pid = (p.counted.find? fun e => e.pid = pid).map fun e => e.name

theorem find_counted (p : ProcTable) (pid : Int) :
    (p.counted.find? fun e => e.pid = pid) =
      ((List.range p.nProcs).find? fun i => (p.procs i).pid = pid).map p.procs := by
  unfold ProcTable.counted
  rw [List.find?_map]
  rfl

theorem cached_iff {p : ProcTable} {pid : Int} :
    p.Cached pid ↔ ((List.range p.nProcs).find? fun i => (p.procs i).pid = pid).isSome := by
  rw [List.find?_isSome]
  simp [ProcTable.Cached]

/-- Writing the slot past those counted changes none of them. -/
theorem counted_write (p : ProcTable) (entry : ProcName) :
    (List.range p.nProcs).map (Function.update p.procs p.nProcs entry) = p.counted := by
  refine List.map_congr_left fun i hi => ?_
  have hi : i < p.nProcs := List.mem_range.mp hi
  rw [Function.update_of_ne (by omega)]

theorem Holds.write {p : ProcTable} {cache : NameCache} (h : Holds p cache) (entry : ProcName) :
    Holds { p with procs := Function.update p.procs p.nProcs entry } cache := by
  intro pid
  show cache pid = (List.find? _ ((List.range p.nProcs).map _)).map _
  rw [counted_write]
  exact h pid

theorem counted_push (p : ProcTable) (entry : ProcName) :
    (List.range (p.nProcs + 1)).map (Function.update p.procs p.nProcs entry) =
      p.counted ++ [entry] := by
  rw [List.range_succ, List.map_append, counted_write, List.map_singleton, Function.update_self]

theorem Holds.push {p : ProcTable} {cache : NameCache} (h : Holds p cache) {pid : Int}
    (hnew : cache pid = none) (name : Bytes) :
    Holds { p with
      procs := Function.update p.procs p.nProcs ⟨pid, name⟩
      nProcs := p.nProcs + 1 } (Function.update cache pid (some name)) := by
  intro pid'
  show _ = (List.find? _ ((List.range (p.nProcs + 1)).map _)).map _
  rw [counted_push, List.find?_append]
  by_cases hpid : pid' = pid
  · subst hpid
    have hnone : (p.counted.find? fun e => e.pid = pid') = none :=
      Option.map_eq_none_iff.mp ((h pid').symm.trans hnew)
    rw [hnone]
    simp
  · rw [Function.update_of_ne hpid, h pid']
    simp [Ne.symm hpid]

/-! ## What one call does -/

/-- The name in the slot after the read. -/
def slotName (old content : Bytes) : Bytes :=
  match fgets 256 content with
  | none => old
  | some (line, _) => cString line

theorem getProcName_read {L : Limits} {fs : ProcFs} {pid : Int} {p : ProcTable} {content : Bytes}
    (hnot : (List.range p.nProcs).find? (fun i => (p.procs i).pid = pid) = none)
    (hcmd : fs.cmdline pid = some content) (hn : p.nProcs < L.procs) :
    getProcName L fs pid p =
      .ok (returned (slotName (p.procs p.nProcs).name content),
        if Printable (slotName (p.procs p.nProcs).name content) then
          { p with
            procs := Function.update p.procs p.nProcs
              ⟨pid, slotName (p.procs p.nProcs).name content⟩
            nProcs := p.nProcs + 1 }
        else
          { p with
            procs := Function.update p.procs p.nProcs
              ⟨pid, slotName (p.procs p.nProcs).name content⟩ }) := by
  unfold getProcName
  rw [hnot, hcmd]
  dsimp only
  rw [if_neg (Nat.not_le.mpr hn)]
  show (if (slotName (p.procs p.nProcs).name content).headD 0 < 32 then _ else _) = _
  unfold returned
  by_cases hprint : Printable (slotName (p.procs p.nProcs).name content)
  · rw [if_pos hprint, if_pos hprint, if_neg (UInt8.not_lt.mpr hprint)]
    rfl
  · rw [if_neg hprint, if_neg hprint, if_pos (UInt8.not_le.mp hprint)]
    rfl

/-- The slot gives the process's own name exactly when an empty file finds no
name in it and the line does not end within the first string. -/
theorem returned_slotName_iff (old content : Bytes) :
    returned (slotName old content) = returned (firstString content) ↔
      (content = [] → ¬ Printable old) ∧
        (Printable content → 10 ∉ (firstString content).dropLast) := by
  unfold slotName fgets firstString
  -- an empty file leaves what was in the slot
  by_cases hempty : content = []
  · subst hempty
    have hno : ¬ Printable ([] : Bytes) := by decide
    have hfirst : returned (cString (List.take 255 [])) = none := by decide
    rw [if_pos rfl, hfirst]
    dsimp only
    unfold returned
    constructor
    · intro heq
      refine ⟨fun _ hprint => ?_, fun hprint => absurd hprint hno⟩
      rw [if_pos hprint] at heq
      cases heq
    · intro hcond
      rw [if_neg (hcond.1 rfl)]
  · rw [if_neg hempty]
    dsimp only
    unfold returned
    -- a printable name is cut at its first line end
    by_cases hprint : Printable content
    · rw [if_pos ((printable_cString_takeLine 254 content).mpr hprint),
        if_pos ((printable_cString_take 254 content).mpr hprint), Option.some.injEq,
        cString_takeLine_eq_iff]
      exact ⟨fun hnl => ⟨fun h => absurd h hempty, fun _ => hnl⟩, fun h => h.2 hprint⟩
    · rw [if_neg (fun h => hprint ((printable_cString_takeLine 254 content).mp h)),
        if_neg (fun h => hprint ((printable_cString_take 254 content).mp h))]
      exact ⟨fun _ => ⟨fun h => absurd h hempty, fun h => absurd h hprint⟩, fun _ => rfl⟩

theorem Holds.cache_eq {p : ProcTable} {cache : NameCache} (h : Holds p cache) (pid : Int) :
    cache pid = (((List.range p.nProcs).find? fun i => (p.procs i).pid = pid).map p.procs).map
      fun e => e.name := by
  rw [← find_counted]
  exact h pid

/-- A file that is read takes a slot. -/
theorem lt_procs_of_getProcName {L : Limits} {p : ProcTable} {fs : ProcFs} {pid : Int}
    {content : Bytes} {r : Option Bytes × ProcTable}
    (hfind : ((List.range p.nProcs).find? fun i => (p.procs i).pid = pid) = none)
    (hcmd : fs.cmdline pid = some content) (hcall : getProcName L fs pid p = .ok r) :
    p.nProcs < L.procs := by
  by_contra hge
  unfold getProcName at hcall
  rw [hfind, hcmd] at hcall
  dsimp only at hcall
  rw [if_pos (Nat.not_lt.mp hge)] at hcall
  cases hcall

/-- What one call does, when the slots hold the cache. -/
theorem getProcName_spec {L : Limits} {p : ProcTable} {cache : NameCache} (h : Holds p cache)
    (fs : ProcFs) (pid : Int) :
    (ReadsOwnName L fs pid p → ∃ p', getProcName L fs pid p = .ok (lookupName fs pid cache, p') ∧
      Holds p' (Function.update cache pid (lookupName fs pid cache))) ∧
    ((∃ p', getProcName L fs pid p = .ok (lookupName fs pid cache, p')) →
      ReadsOwnName L fs pid p) := by
  have hcache := h.cache_eq pid
  cases hfind : (List.range p.nProcs).find? fun i => (p.procs i).pid = pid with
  | some i =>
      -- the name is in a slot: no file is read
      have hcached : p.Cached pid := cached_iff.mpr (by rw [hfind]; rfl)
      rw [hfind] at hcache
      have hsame : cache pid = some (p.procs i).name := hcache
      have hlookup : lookupName fs pid cache = some (p.procs i).name := by
        unfold lookupName
        rw [hsame]
      refine ⟨fun _ => ⟨p, ?_, ?_⟩, fun _ => Or.inl hcached⟩
      · unfold getProcName
        rw [hfind, hlookup]
      · rw [hlookup, ← hsame, Function.update_eq_self]
        exact h
  | none =>
      have hnew : cache pid = none := by
        rw [hcache, hfind]
        rfl
      have hnotCached : ¬ p.Cached pid := by
        rw [cached_iff, hfind]
        exact Bool.false_ne_true
      have hkeep : Function.update cache pid none = cache := by
        rw [← hnew, Function.update_eq_self]
      unfold ReadsOwnName lookupName
      rw [hnew]
      dsimp only
      cases hcmd : fs.cmdline pid with
      | none =>
          -- the process is gone
          have hcall : getProcName L fs pid p = .ok (none, p) := by
            unfold getProcName
            rw [hfind, hcmd]
          exact ⟨fun _ => ⟨p, hcall, by rw [hkeep]; exact h⟩, fun _ => Or.inr (by simp)⟩
      | some content =>
          -- the next slot is overwritten, and counted when its name is printable
          have hslot := returned_slotName_iff (p.procs p.nProcs).name content
          dsimp only
          constructor
          · intro hok
            rcases hok.resolve_left hnotCached content rfl with ⟨hn, hcond⟩
            have hsame := hslot.mpr hcond
            rw [← hsame]
            refine ⟨_, getProcName_read hfind hcmd hn, ?_⟩
            unfold returned
            split
            · exact h.push hnew _
            · rw [hkeep]
              exact h.write _
          · rintro ⟨p', hcall⟩
            have hn := lt_procs_of_getProcName hfind hcmd hcall
            rw [getProcName_read hfind hcmd hn] at hcall
            have hsame := congrArg Prod.fst (Except.ok.inj hcall)
            right
            rintro _ ⟨⟩
            exact ⟨hn, hslot.mp hsame⟩

/-! ## Runs -/

/-- The slots hold the cache along every run whose events meet the condition. -/
theorem holds_of_reachable {L : Limits} {s : ProcTable × NameCache}
    (h : (names L).ReachableBy (NameEvent.Ok L) s) : Holds s.1 s.2 := by
  refine h.invariant (P := fun s => Holds s.1 s.2) ?_ ?_
  · rintro s rfl
    exact fun _ => rfl
  · rintro (_ | ⟨fs, pid⟩) ⟨p, cache⟩ s' hs hok hstep
    · cases hstep
      exact fun _ => rfl
    · rcases (getProcName_spec hs fs pid).1 hok with ⟨p', hcall, hs'⟩
      have hstep : (getProcName L fs pid p).toOption.map _ = some s' := hstep
      rw [hcall] at hstep
      cases hstep
      exact hs'

/-- After every run of calls and refreshes that met the condition, the next call
returns NULL when the command line cannot be opened or has no printable first
byte, and otherwise its first string as read since the last `Init`, exactly when
it meets the condition as well. -/
theorem getProcName_lookupName_iff {L : Limits} {p : ProcTable} {cache : NameCache}
    (h : (names L).ReachableBy (NameEvent.Ok L) (p, cache)) (fs : ProcFs) (pid : Int) :
    (∃ p', getProcName L fs pid p = .ok (lookupName fs pid cache, p')) ↔
      ReadsOwnName L fs pid p := by
  have hspec := getProcName_spec (L := L) (holds_of_reachable h) fs pid
  constructor
  · exact hspec.2
  · intro hok
    rcases hspec.1 hok with ⟨p', hcall, _⟩
    exact ⟨p', hcall⟩

/-- A process with a command line and one without. -/
def mailAndKernel : ProcFs := ProcFs.ofSockets [] [] [(5, "mail", []), (7, "", [])]

/-- The process id is given to another program. -/
def chatAndKernel : ProcFs := ProcFs.ofSockets [] [] [(5, "chat", []), (7, "", [])]

theorem ok_mail {p : ProcTable} {cache : NameCache} (hn : p.nProcs < srcLimits.procs) :
    (NameEvent.call mailAndKernel 5).Ok srcLimits (p, cache) := by
  right
  rintro _ ⟨⟩
  exact ⟨hn, fun hempty => absurd hempty (by decide), by decide⟩

/-- The name read again behind a refresh is kept, whatever program the process
id is given to. -/
theorem getProcName_lookupName_mail :
    ∃ p cache p', (names srcLimits).run
        [.call mailAndKernel 5, .refresh, .call mailAndKernel 5]
        (State.zero.toProcTable, fun _ => none) = some (p, cache) ∧
      getProcName srcLimits chatAndKernel 5 p = .ok (some (text "mail"), p') := by
  have hinit : (names srcLimits).ReachableBy (NameEvent.Ok srcLimits)
      (State.zero.toProcTable, fun _ => none) := .init rfl
  have hread := hinit.tail (ok_mail (by decide)) rfl
  have hagain := (hread.tail (i := NameEvent.refresh) trivial rfl).tail (ok_mail (by decide)) rfl
  rcases (getProcName_lookupName_iff hagain chatAndKernel 5).mpr
    (Or.inl ⟨0, by decide, rfl⟩) with ⟨p', hcall⟩
  exact ⟨_, _, p', rfl, hcall⟩

/-- After a refresh the empty command line is given the name in its slot. -/
theorem getProcName_borrowed :
    ¬ ∀ (p : ProcTable) (cache : NameCache), (names srcLimits).Reachable (p, cache) →
      ∀ (fs : ProcFs) (pid : Int),
        ∃ p', getProcName srcLimits fs pid p = .ok (lookupName fs pid cache, p') := by
  intro hall
  have hrun : (names srcLimits).run [.call mailAndKernel 5, .refresh]
      (State.zero.toProcTable, fun _ => none) =
      some (⟨Function.update State.zero.procs 0 ⟨5, text "mail"⟩, 0, []⟩, fun _ => none) := rfl
  rcases hall _ _ (System.reachable_of_run rfl hrun) mailAndKernel 7 with ⟨p', hcall⟩
  have hname : (getProcName srcLimits mailAndKernel 7
      ⟨Function.update State.zero.procs 0 ⟨5, text "mail"⟩, 0, []⟩).map Prod.fst =
      .ok (some (text "mail")) := rfl
  rw [hcall] at hname
  cases hname

end MobiPerf.SocketProc
