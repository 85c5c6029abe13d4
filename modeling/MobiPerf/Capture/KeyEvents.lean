import MobiPerf.Capture.KeyTable
import MobiPerf.Lib.Statement

/-!
# Capture.KeyEvents — the lines written for a batch of input events

After its `select`, `HandleEvents` reads the events of each file that has any, and
compares every event with every entry of the row of its file; for each entry that
matches it writes a line to `processed_events`, with the names of the entry's event and
action. Between them it reads `exitFlag`, which other threads set, and returns 0 at once
when it shows a stop (`Capture.ExitFlag`); here the values that are read are given.

* `handleEvents_lines`: while no stop is read and every name is found, the lines are those
  of all entries that match, in the order of the events, as many for an event and an
  action as entries with them match; a stop that is read cuts them off where it is read.
* `not_once_repeated`: two lines, where an entry stands twice in the database.
-/

namespace MobiPerf.Capture

open Lib
open SocketProc (Bytes)

/-! ## `HandleEvents` -/

/-- `struct input_event`, with the time at which `HandleEvents` comes to it. -/
structure InputEvent where
  type : Int
  code : Int
  value : Int
  tm : ℕ
deriving DecidableEq, Repr

/-- A line of `processed_events`. -/
structure EventLine where
  tm : ℕ
  event : String
  action : String
deriving DecidableEq, Repr

/-- What is read of `exitFlag` while an event is compared with an entry: before the
test, before the line is written, and after it at the release of the volume key. -/
structure FlagReads where
  atEntry : Int
  atMatch : Int
  atRelease : Int
deriving DecidableEq

def eventVoldown : Int := 3
def actionRelease : Int := 2

def eventStr : List String :=
  ["", "screen", "key volup", "key voldown", "key ball", "key power", "key menu", "key home",
    "key back", "key search"]

def actionStr : List String := ["", "press", "release"]

/-- `names[n]`. Nothing is known of what is outside the table. -/
def nameAt (names : List String) : Int → Option String
  | .ofNat n => names[n]?
  | .negSucc _ => none

/-- A -1 for `arg3` stands for anything positive. -/
def KeyEntry.Matches (e : KeyEntry) (ev : InputEvent) : Prop :=
  e.arg1 = ev.type ∧ e.arg2 = ev.code ∧ (e.arg3 = ev.value ∨ (e.arg3 = -1 ∧ 0 < ev.value))

instance (e : KeyEntry) (ev : InputEvent) : Decidable (e.Matches ev) :=
  inferInstanceAs (Decidable (_ ∧ _ ∧ _))

/-- The line an entry that matches stands for, if its numbers have names. -/
def InputEvent.line (ev : InputEvent) (e : KeyEntry) : Option EventLine := do
  let event ← nameAt eventStr e.event
  let action ← nameAt actionStr e.action
  some ⟨ev.tm, event, action⟩

/-- How the loops are left early: `HandleEvents` returns 0, or a name is looked for
outside its table. -/
inductive Leaving where
  | stop
  | outside

/-- The body of the innermost loop. -/
def handleEntry (reads : FlagReads) (ev : InputEvent) (e : KeyEntry) :
    Stmt Leaving (List EventLine) := fun lines =>
  if reads.atEntry = 4 then (some .stop, lines)
  else if e.Matches ev then
    if reads.atMatch = 4 then (some .stop, lines)
    else
      match ev.line e with
      | none => (some .outside, lines)
      | some line =>
        if e.event = eventVoldown ∧ e.action = actionRelease ∧ reads.atRelease = 3 then
          (some .stop, lines ++ [line])
        else (none, lines ++ [line])
  else (none, lines)

/-- `keyEntries[i][k]`; memory that was never written is zero. -/
def keyEntry (t : KeyTable) (i k : ℕ) : KeyEntry :=
  match t.cells (maxKeyEntries * i + k) with
  | some (_, e) => e
  | none => ⟨0, 0, 0, 0, 0⟩

/-- The loop over the entries, for the `j`th event of file `i`. -/
def handleEvent (t : KeyTable) (flags : ℕ → ℕ → ℕ → FlagReads) (i j : ℕ) (ev : InputEvent) :
    Stmt Leaving (List EventLine) :=
  .block ((List.range (t.count i)).map fun k => handleEntry (flags i j k) ev (keyEntry t i k))

def handleFile (t : KeyTable) (flags : ℕ → ℕ → ℕ → FlagReads) (i : ℕ)
    (events : List InputEvent) : Stmt Leaving (List EventLine) :=
  .block (events.zipIdx.map fun x => handleEvent t flags i x.2 x.1)

/-- `HandleEvents` after its `select`: what it returns and the lines it writes, and
`none` where it reads outside a table. The batch of a file that has no events is empty. -/
def handleEvents (t : KeyTable) (flags : ℕ → ℕ → ℕ → FlagReads)
    (batch : ℕ → List InputEvent) : Option (ℕ × List EventLine) :=
  let loops : Stmt Leaving (List EventLine) :=
    .block ((List.range (maxInputFileId + 1)).map fun i => handleFile t flags i (batch i))
  match loops [] with
  | (none, lines) => some (1, lines)
  | (some .stop, lines) => some (0, lines)
  | (some .outside, _) => none

/-! ## The comparisons -/

/-- An event and an entry it is compared with. -/
structure Comparison where
  ev : InputEvent
  entry : KeyEntry
  reads : FlagReads
deriving DecidableEq

namespace Comparison

def run (c : Comparison) : Stmt Leaving (List EventLine) := handleEntry c.reads c.ev c.entry

/-- The line it is about, if the entry matches. -/
def lines (c : Comparison) : List EventLine :=
  if c.entry.Matches c.ev then (c.ev.line c.entry).toList else []

/-- A stop is read before a line could be written. -/
def StopsBefore (c : Comparison) : Prop :=
  c.reads.atEntry = 4 ∨ (c.entry.Matches c.ev ∧ c.reads.atMatch = 4)

/-- The entry matches, but its event or its action has no name. -/
def Nameless (c : Comparison) : Prop := c.entry.Matches c.ev ∧ c.ev.line c.entry = none

/-- A stop is read behind the line, which is that of the release of the volume key. -/
def StopsBehind (c : Comparison) : Prop :=
  c.entry.Matches c.ev ∧ c.entry.event = eventVoldown ∧ c.entry.action = actionRelease ∧
    c.reads.atRelease = 3

/-- The loops are not left. -/
def GoesOn (c : Comparison) : Prop := ¬ c.StopsBefore ∧ ¬ c.Nameless ∧ ¬ c.StopsBehind

instance (c : Comparison) : Decidable c.StopsBefore := inferInstanceAs (Decidable (_ ∨ _))

instance (c : Comparison) : Decidable c.Nameless := inferInstanceAs (Decidable (_ ∧ _))

instance (c : Comparison) : Decidable c.StopsBehind := inferInstanceAs (Decidable (_ ∧ _))

instance (c : Comparison) : Decidable c.GoesOn := inferInstanceAs (Decidable (_ ∧ _))

variable {c : Comparison}

/-- A comparison that stops before it writes leaves the file as it is. -/
theorem run_of_stopsBefore (h : c.StopsBefore) (s : List EventLine) :
    c.run s = (some .stop, s ++ []) := by
  rw [List.append_nil]
  unfold run handleEntry
  by_cases hentry : c.reads.atEntry = 4
  · rw [if_pos hentry]
  · obtain ⟨hmatch, hflag⟩ := h.resolve_left hentry
    rw [if_neg hentry, if_pos hmatch, if_pos hflag]

/-- Behind the tests of the flag the line of a match is written. -/
theorem run_of_matches (hbefore : ¬ c.StopsBefore) (hmatch : c.entry.Matches c.ev)
    (s : List EventLine) : c.run s =
      match c.ev.line c.entry with
      | none => (some .outside, s)
      | some line =>
        if c.entry.event = eventVoldown ∧ c.entry.action = actionRelease ∧
            c.reads.atRelease = 3 then
          (some .stop, s ++ [line])
        else (none, s ++ [line]) := by
  unfold StopsBefore at hbefore
  rw [not_or, not_and] at hbefore
  unfold run handleEntry
  rw [if_neg hbefore.1, if_pos hmatch, if_neg (hbefore.2 hmatch)]

/-- One without a name reads outside the arrays of names. -/
theorem run_of_nameless (hbefore : ¬ c.StopsBefore) (h : c.Nameless) (s : List EventLine) :
    c.run s = (some .outside, s ++ []) := by
  rw [run_of_matches hbefore h.1, h.2, List.append_nil]

/-- A match with names has its line. -/
theorem exists_line (hmatch : c.entry.Matches c.ev) (hnamed : ¬ c.Nameless) :
    ∃ line, c.ev.line c.entry = some line ∧ c.lines = [line] := by
  cases hline : c.ev.line c.entry with
  | none => exact absurd ⟨hmatch, hline⟩ hnamed
  | some line => exact ⟨line, rfl, by rw [lines, if_pos hmatch, hline]; rfl⟩

/-- One that stops behind its line has written it. -/
theorem run_of_stopsBehind (hbefore : ¬ c.StopsBefore) (hnamed : ¬ c.Nameless)
    (h : c.StopsBehind) (s : List EventLine) : c.run s = (some .stop, s ++ c.lines) := by
  obtain ⟨line, hline, hlines⟩ := exists_line h.1 hnamed
  rw [run_of_matches hbefore h.1, hline, hlines]
  exact if_pos h.2

/-- Every other goes on, with its line if it matches. -/
theorem run_of_goesOn (h : c.GoesOn) (s : List EventLine) : c.run s = (none, s ++ c.lines) := by
  obtain ⟨hbefore, hnamed, hbehind⟩ := h
  by_cases hmatch : c.entry.Matches c.ev
  · obtain ⟨line, hline, hlines⟩ := exists_line hmatch hnamed
    rw [run_of_matches hbefore hmatch, hline, hlines]
    exact if_neg fun hrelease => hbehind ⟨hmatch, hrelease⟩
  · have hentry : ¬ c.reads.atEntry = 4 := fun h => hbefore (Or.inl h)
    unfold run handleEntry
    rw [if_neg hentry, if_neg hmatch, lines, if_neg hmatch, List.append_nil]

end Comparison

/-- The comparisons of the `j`th event of file `i`, in the order in which they are made. -/
def eventComparisons (t : KeyTable) (flags : ℕ → ℕ → ℕ → FlagReads) (i j : ℕ)
    (ev : InputEvent) : List Comparison :=
  (List.range (t.count i)).map fun k => ⟨ev, keyEntry t i k, flags i j k⟩

/-- Those of a batch. -/
def comparisons (t : KeyTable) (flags : ℕ → ℕ → ℕ → FlagReads) (batch : ℕ → List InputEvent) :
    List Comparison :=
  (List.range (maxInputFileId + 1)).flatMap fun i =>
    (batch i).zipIdx.flatMap fun x => eventComparisons t flags i x.2 x.1

variable {t : KeyTable} {flags : ℕ → ℕ → ℕ → FlagReads} {batch : ℕ → List InputEvent}

/-- An event is a block of comparisons. -/
theorem handleEvent_eq (i j : ℕ) (ev : InputEvent) : handleEvent t flags i j ev =
    .block ((eventComparisons t flags i j ev).map Comparison.run) := by
  rw [eventComparisons, List.map_map]
  rfl

/-- The loops are one loop over the comparisons. -/
theorem loops_eq (t : KeyTable) (flags : ℕ → ℕ → ℕ → FlagReads) (batch : ℕ → List InputEvent) :
    (.block ((List.range (maxInputFileId + 1)).map fun i => handleFile t flags i (batch i)) :
      Stmt Leaving (List EventLine)) =
      .block ((comparisons t flags batch).map Comparison.run) := by
  have hfile : ∀ i, handleFile t flags i (batch i) = .block
      (((batch i).zipIdx.flatMap fun x => eventComparisons t flags i x.2 x.1).map
        Comparison.run) := by
    intro i
    unfold handleFile
    simp only [handleEvent_eq]
    rw [Stmt.block_flatMap, List.map_flatMap]
  simp only [hfile]
  rw [Stmt.block_flatMap, comparisons, List.map_flatMap]

/-! ## The lines -/

/-- The entries of event file `i`, as many as `nKeyEntries[i]` says. -/
def entriesOf (t : KeyTable) (i : ℕ) : List KeyEntry :=
  (List.range (t.count i)).map (keyEntry t i)

/-- The lines of the entries of file `i` that match an event. -/
def eventLines (t : KeyTable) (i : ℕ) (ev : InputEvent) : List EventLine :=
  ((entriesOf t i).filter fun e => e.Matches ev).filterMap ev.line

/-- The lines of all events of a batch, in order. -/
def batchLines (t : KeyTable) (batch : ℕ → List InputEvent) : List EventLine :=
  (List.range (maxInputFileId + 1)).flatMap fun i => (batch i).flatMap (eventLines t i)

/-- The lines of an event are those of its comparisons. -/
theorem lines_eventComparisons (i j : ℕ) (ev : InputEvent) :
    (eventComparisons t flags i j ev).flatMap Comparison.lines = eventLines t i ev := by
  have hlines : ∀ entries : List KeyEntry,
      (entries.flatMap fun e => if e.Matches ev then (ev.line e).toList else []) =
        (entries.filter fun e => e.Matches ev).filterMap ev.line := by
    intro entries
    induction entries with
    | nil => rfl
    | cons e entries ih =>
      rw [List.flatMap_cons, ih]
      by_cases hmatch : e.Matches ev
      · rw [if_pos hmatch, List.filter_cons_of_pos (by simpa using hmatch), List.filterMap_cons]
        cases ev.line e <;> rfl
      · rw [if_neg hmatch, List.filter_cons_of_neg (by simpa using hmatch)]
        rfl
  rw [eventLines, ← hlines, entriesOf, List.flatMap_map, eventComparisons, List.flatMap_map]
  rfl

/-- The lines of the comparisons are those of the events. -/
theorem lines_comparisons (t : KeyTable) (flags : ℕ → ℕ → ℕ → FlagReads)
    (batch : ℕ → List InputEvent) :
    (comparisons t flags batch).flatMap Comparison.lines = batchLines t batch := by
  unfold comparisons batchLines
  rw [List.flatMap_assoc]
  refine List.flatMap_congr fun i _ => ?_
  rw [List.flatMap_assoc]
  simp only [lines_eventComparisons]
  conv_rhs => rw [← List.zipIdx_map_fst 0 (batch i), List.flatMap_map]

/-- A name stands in its table once. -/
theorem nameAt_inj {names : List String} (hnodup : names.Nodup) {m n : Int} {name : String}
    (hm : nameAt names m = some name) (hn : nameAt names n = some name) : m = n := by
  cases m with
  | negSucc m => cases hm
  | ofNat m =>
    cases n with
    | negSucc n => cases hn
    | ofNat n =>
      have hlt := (List.getElem?_eq_some_iff.mp hm).1
      exact congrArg _ ((List.getElem?_inj hlt hnodup).mp (hm.trans hn.symm))

/-- A line has the names of its event and its action. -/
theorem line_names_iff (ev : InputEvent) (e : KeyEntry) {event action : Int}
    {eventName actionName : String} (hevent : nameAt eventStr event = some eventName)
    (haction : nameAt actionStr action = some actionName) :
    (∃ l, ev.line e = some l ∧ l.event = eventName ∧ l.action = actionName) ↔
      e.event = event ∧ e.action = action := by
  unfold InputEvent.line
  simp only [Option.bind_eq_bind, Option.bind_eq_some_iff, Option.some.injEq]
  constructor
  · rintro ⟨l, ⟨name, hname, name', hname', rfl⟩, rfl, rfl⟩
    exact ⟨nameAt_inj (by decide) hname hevent, nameAt_inj (by decide) hname' haction⟩
  · rintro ⟨rfl, rfl⟩
    exact ⟨_, ⟨eventName, hevent, actionName, haction, rfl⟩, rfl, rfl⟩

/-- An event writes a line with two names for each entry with their numbers that
matches it. -/
theorem countP_eventLines (t : KeyTable) (i : ℕ) (ev : InputEvent) {event action : Int}
    {eventName actionName : String} (hevent : nameAt eventStr event = some eventName)
    (haction : nameAt actionStr action = some actionName) :
    ((eventLines t i ev).countP fun l => l.event = eventName ∧ l.action = actionName) =
      (entriesOf t i).countP fun e => e.event = event ∧ e.action = action ∧ e.Matches ev := by
  rw [eventLines, List.countP_filterMap, List.countP_filter]
  refine List.countP_congr fun e _ => ?_
  have hnames : ((ev.line e).map fun l =>
      decide (l.event = eventName ∧ l.action = actionName)).getD false = true ↔
        e.event = event ∧ e.action = action := by
    rw [← line_names_iff ev e hevent haction]
    cases ev.line e <;> simp
  simp only [Bool.and_eq_true, decide_eq_true_eq, hnames]
  exact and_assoc

/-- The table that was loaded has the wanted entries of each file. -/
theorem entriesOf_exact {rows : ℕ → List KeyEntry} {i : ℕ}
    (h : t.Exact maxKeyEntries (maxInputFileId + 1) rows) (hi : i ≤ maxInputFileId) :
    entriesOf t i = rows i := by
  have hlt : i < maxInputFileId + 1 := Nat.lt_succ_of_le hi
  refine List.ext_getElem? fun k => ?_
  rw [entriesOf, List.getElem?_map, h.count i hlt]
  cases hk : (rows i)[k]? with
  | none =>
    rw [List.getElem?_eq_none_iff] at hk
    rw [List.getElem?_eq_none (by simpa using hk)]
    rfl
  | some e =>
    have hlength := (List.getElem?_eq_some_iff.mp hk).1
    rw [List.getElem?_range hlength, Option.map_some, keyEntry, h.cells i hlt k e hk]

/-- What `HandleEvents` makes of a batch: the lines of the comparisons in their order,
which are a line for each entry that matches an event, up to one that leaves the loops. -/
structure LinePerMatch (t : KeyTable) (flags : ℕ → ℕ → ℕ → FlagReads)
    (batch : ℕ → List InputEvent) : Prop where
  all : (∀ c ∈ comparisons t flags batch, c.GoesOn) →
    handleEvents t flags batch = some (1, batchLines t batch)
  stopped_before : ∀ before c after, comparisons t flags batch = before ++ c :: after →
    (∀ b ∈ before, b.GoesOn) → c.StopsBefore →
      handleEvents t flags batch = some (0, before.flatMap Comparison.lines)
  stopped_behind : ∀ before c after, comparisons t flags batch = before ++ c :: after →
    (∀ b ∈ before, b.GoesOn) → ¬ c.StopsBefore → ¬ c.Nameless → c.StopsBehind →
      handleEvents t flags batch = some (0, (before ++ [c]).flatMap Comparison.lines)
  /-- an event or an action that has no name is looked for outside the tables -/
  outside : ∀ before c after, comparisons t flags batch = before ++ c :: after →
    (∀ b ∈ before, b.GoesOn) → ¬ c.StopsBefore → c.Nameless → handleEvents t flags batch = none
  lines : (comparisons t flags batch).flatMap Comparison.lines = batchLines t batch
  count : ∀ i ev event action eventName actionName, nameAt eventStr event = some eventName →
    nameAt actionStr action = some actionName →
    ((eventLines t i ev).countP fun l => l.event = eventName ∧ l.action = actionName) =
        ((entriesOf t i).countP fun e => e.event = event ∧ e.action = action ∧ e.Matches ev) ∧
      ((∃ l ∈ eventLines t i ev, l.event = eventName ∧ l.action = actionName) ↔
        ∃ e ∈ entriesOf t i, e.event = event ∧ e.action = action ∧ e.Matches ev)
  /-- the entries are those of the database, where it was loaded exactly -/
  loaded : ∀ (db : KeyDb) gszDeviceLine gDeviceKeyArray garbage s,
    readDeviceKeyDB gszDeviceLine gDeviceKeyArray garbage db.text = some (s, t) →
    LoadsExactly db gszDeviceLine gDeviceKeyArray garbage →
      ∀ i ≤ maxInputFileId, entriesOf t i = db.wanted gszDeviceLine i

/-- The loops end normally. -/
theorem handleEvents_of_none {lines : List EventLine}
    (h : Stmt.block ((comparisons t flags batch).map Comparison.run) [] = (none, lines)) :
    handleEvents t flags batch = some (1, lines) := by
  simp only [handleEvents, loops_eq, h]

/-- The answer is 0 when a comparison stops. -/
theorem handleEvents_of_stop {lines : List EventLine}
    (h : Stmt.block ((comparisons t flags batch).map Comparison.run) [] = (some .stop, lines)) :
    handleEvents t flags batch = some (0, lines) := by
  simp only [handleEvents, loops_eq, h]

/-- There is none when one reads outside the arrays. -/
theorem handleEvents_of_outside {lines : List EventLine}
    (h : Stmt.block ((comparisons t flags batch).map Comparison.run) [] = (some .outside, lines)) :
    handleEvents t flags batch = none := by
  simp only [handleEvents, loops_eq, h]

/-- The first comparison that leaves the loops ends them, with the lines in front of it. -/
theorem block_comparisons {before after : List Comparison} {c : Comparison} {e : Leaving}
    {written : List EventLine} (hsplit : comparisons t flags batch = before ++ c :: after)
    (hbefore : ∀ b ∈ before, b.GoesOn) (hc : ∀ s, c.run s = (some e, s ++ written)) :
    Stmt.block ((comparisons t flags batch).map Comparison.run) [] =
      (some e, before.flatMap Comparison.lines ++ written) := by
  rw [hsplit]
  exact Stmt.block_of_some (fun b hb => Comparison.run_of_goesOn (hbefore b hb)) hc []

theorem handleEvents_lines (t : KeyTable) (flags : ℕ → ℕ → ℕ → FlagReads)
    (batch : ℕ → List InputEvent) : LinePerMatch t flags batch where
  all h := by
    have hall := Stmt.block_of_none (fun c hc => Comparison.run_of_goesOn (h c hc)) []
    rw [lines_comparisons, List.nil_append] at hall
    exact handleEvents_of_none hall
  stopped_before before c after hsplit hbefore hstop := by
    have hrun := block_comparisons hsplit hbefore (Comparison.run_of_stopsBefore hstop)
    rw [List.append_nil] at hrun
    exact handleEvents_of_stop hrun
  stopped_behind before c after hsplit hbefore hnot hnamed hstop := by
    have hrun := block_comparisons hsplit hbefore
      (Comparison.run_of_stopsBehind hnot hnamed hstop)
    rw [List.flatMap_append, List.flatMap_singleton]
    exact handleEvents_of_stop hrun
  outside before c after hsplit hbefore hnot hnameless :=
    handleEvents_of_outside
      (block_comparisons hsplit hbefore (Comparison.run_of_nameless hnot hnameless))
  lines := lines_comparisons t flags batch
  count i ev event action eventName actionName hevent haction := by
    have hcount := countP_eventLines t i ev hevent haction
    refine ⟨hcount, ?_⟩
    have hpos := congrArg (0 < ·) hcount
    simpa only [List.countP_pos_iff, decide_eq_true_eq, eq_iff_iff] using hpos
  loaded db gszDeviceLine gDeviceKeyArray garbage s hread hexact i hi := by
    obtain ⟨s', t', hread', hrows⟩ := hexact
    rw [hread] at hread'
    cases hread'
    exact entriesOf_exact hrows hi

/-! ## An entry that stands twice -/

/-- The entry `1 1 1 5 1 2 1`, on two lines. -/
def repeated : KeyDb where
  devices := []
  rows := [firstRow, firstRow]
  newlines := by decide

def repeatedLoad : Option (Scan × KeyTable) :=
  readDeviceKeyDB [] (fun _ => ⟨[], 0⟩) ⟨0, 0, ⟨0, 0, 0, 0, 0⟩⟩ repeated.text

/-- What is loaded from it. -/
def repeatedTable : KeyTable := repeatedLoad.elim FlatRows.empty Prod.snd

theorem exists_repeatedLoad : ∃ s, repeatedLoad = some (s, repeatedTable) := by
  have hsome : repeatedLoad.isSome = true := by decide +kernel
  obtain ⟨⟨s, t⟩, hload⟩ := Option.isSome_iff_exists.mp hsome
  exact ⟨s, by rw [repeatedTable, hload]; rfl⟩

/-- No stop is read. -/
def quiet : ℕ → ℕ → ℕ → FlagReads := fun _ _ _ => ⟨0, 0, 0⟩

/-- A stop is read in front of the second entry. -/
def stopAtSecond : ℕ → ℕ → ℕ → FlagReads := fun _ _ k => ⟨if k = 1 then 4 else 0, 0, 0⟩

def press : InputEvent := ⟨1, 5, 1, 1000⟩

/-- A press of the key the entry is about. -/
def pressed : ℕ → List InputEvent := fun i => if i = 1 then [press] else []

/-- It is compared with the entry. -/
def pressedFirst (reads : FlagReads) : Comparison := ⟨press, ⟨1, 5, 1, 2, 1⟩, reads⟩

/-- Both entries write their line; with a stop between them, the first one does. -/
theorem handleEvents_lines_press :
    handleEvents repeatedTable quiet pressed =
        some (1, [⟨1000, "key volup", "press"⟩, ⟨1000, "key volup", "press"⟩]) ∧
      handleEvents repeatedTable stopAtSecond pressed =
        some (0, [⟨1000, "key volup", "press"⟩]) := by
  have hlines : batchLines repeatedTable pressed =
      [⟨1000, "key volup", "press"⟩, ⟨1000, "key volup", "press"⟩] := by
    decide +kernel
  have hstops : comparisons repeatedTable stopAtSecond pressed =
      [pressedFirst ⟨0, 0, 0⟩] ++ pressedFirst ⟨4, 0, 0⟩ :: [] := by
    decide +kernel
  refine ⟨?_, ?_⟩
  · rw [← hlines]
    exact (handleEvents_lines repeatedTable quiet pressed).all (by decide +kernel)
  · exact (handleEvents_lines repeatedTable stopAtSecond pressed).stopped_before _ _ _ hstops
      (by decide +kernel) (by decide)

theorem not_once_repeated : ¬ ∀ (db : KeyDb) (gszDeviceLine : Bytes)
    (gDeviceKeyArray : ℕ → DeviceKeyInfo) (garbage : Registers) (s : Scan) (t : KeyTable),
    readDeviceKeyDB gszDeviceLine gDeviceKeyArray garbage db.text = some (s, t) →
    ∀ flags i ev n lines,
      handleEvents t flags (fun f => if f = i then [ev] else []) = some (n, lines) →
        ∀ event action, (lines.countP fun l => l.event = event ∧ l.action = action) ≤ 1 := by
  intro honce
  obtain ⟨s, hload⟩ := exists_repeatedLoad
  have hlines : handleEvents repeatedTable quiet pressed =
      some (1, [⟨1000, "key volup", "press"⟩, ⟨1000, "key volup", "press"⟩]) := by
    decide +kernel
  have hcount := honce repeated [] _ _ s _ hload quiet 1 press 1 _ hlines "key volup" "press"
  exact absurd hcount (by decide)

end MobiPerf.Capture
