import MobiPerf.Measurements.Platform

/-!
# Collector.TcpdumpProcess — who sees a running tcpdump

The application asks `ps` whether tcpdump is running, to show its state and to decide
about a new capture, and asks it again for the process to kill. Each reads the text on
its own.

* `tcpdumpRows_eq`, `processIdRows_eq`: what the two loops come to on the rows of a
  table of processes;
* `detectors_agree_iff`: they agree exactly when a row that names tcpdump comes with
  one whose process is no zombie and has an `int` for its id.

The lines of the log are left out.
-/

namespace MobiPerf.Collector

open Measurements
open Scheduler (parseInt parseRadix radixValue charDigit)

/-! ## Splitting -/

/-- A character of the class `\s`. -/
def isSpace (c : Char) : Bool := c = ' ' || (9 ≤ c.toNat && c.toNat ≤ 13)

/-- The pieces between runs of white space; `piece` is what the current one has so
far, last character first. -/
def spacePieces : List Char → Bool → List Char → List (List Char)
  | piece, inRun, c :: s =>
    if isSpace c then
      if inRun then spacePieces piece true s else piece.reverse :: spacePieces [] true s
    else spacePieces (c :: piece) false s
  | piece, _, [] => [piece.reverse]

/-- `s.split("\\s+")`. -/
def splitSpaces (s : String) : List String := keptPieces (spacePieces [] false s.toList)

/-- `columns[i]`. -/
def column (columns : List String) (i : ℕ) : Except JavaException String :=
  match columns[i]? with
  | none => .error .arrayIndexOutOfBounds
  | some s => .ok s

/-- `columns[columns.length - 1]`. -/
def lastColumn (columns : List String) : Except JavaException String :=
  match columns.getLast? with
  | none => .error .arrayIndexOutOfBounds
  | some s => .ok s

/-! ## isTcpdumpRunning -/

def tcpdumpProcessName : String := "tcpdump"

def tcpdumpPname : String := "sjtu.omnilab.omniperf"

/-- The loop over the rows behind the header. -/
def tcpdumpRows : List String → Except JavaException Bool
  | [] => .ok false
  | row :: rows => do
    let pName ← lastColumn (splitSpaces row)
    if contains tcpdumpPname pName then .ok true else tcpdumpRows rows

def isTcpdumpRunning (executePS : String → Except JavaException String) :
    Except JavaException Bool :=
  match executePS tcpdumpProcessName with
  | .error (.io _) | .error .interrupted => .ok false
  | .error e => .error e
  | .ok line =>
    match split '\n' line with
    | [] => .error .arrayIndexOutOfBounds
    | header :: rows => if startsWith "USER" header then tcpdumpRows rows else .ok false

/-! ## getProcessID -/

/-- The loop over the rows behind the header. -/
def processIdRows : List String → Except JavaException Int
  | [] => .ok 0
  | row :: rows => do
    let values := splitSpaces row
    let pName ← lastColumn values
    if pName.length > 0 ∧ contains tcpdumpPname pName then
      let state ← column values 7
      if state = "Z" then processIdRows rows
      else
        let temp ← column values 1
        if temp.length > 0 then
          match parseInt temp with
          | some pid => .ok pid
          -- the `NumberFormatException` is caught
          | none => processIdRows rows
        else processIdRows rows
    else processIdRows rows

/-- `s.equalsIgnoreCase("PID")`: the dotted and the dotless letter are an `i` in one
case or the other. -/
def isPidHeader (s : String) : Bool :=
  match s.toList with
  | [p, i, d] => p ∈ ['P', 'p'] && i ∈ ['I', 'i', 'İ', 'ı'] && d ∈ ['D', 'd']
  | _ => false

/-- The loop over the rows of a `ps` without a name; the column of the ids is that of
the header, if there is one. -/
def namedProcessRows (processName : String) (columnNum : Option ℕ) :
    List String → Except JavaException Int
  | [] => .ok 0
  | row :: rows =>
    let values := splitSpaces row
    if values.any (contains processName) then do
      let temp ← match columnNum with
        | none => .error .arrayIndexOutOfBounds
        | some i => column values i
      match parseInt temp with
      | some pid => .ok pid
      | none => .error (numberFormat temp)
    else namedProcessRows processName columnNum rows

def getProcessID (executePS : String → Except JavaException String) (processName : String) :
    Except JavaException Int := do
  let line ← executePS processName
  match split '\n' line with
  | [] => .error .arrayIndexOutOfBounds
  | header :: rows =>
    if startsWith "USER" header then processIdRows rows
    else
      let line ← executePS ""
      match split '\n' line with
      | [] => .ok 0
      | [_] => .ok 0
      | header :: rows =>
        namedProcessRows processName ((splitSpaces header).findIdx? isPidHeader) rows

/-! ## Tables of processes -/

/-- A decimal number greater than zero. -/
def IsPositiveDecimal (s : String) : Prop :=
  (∀ c ∈ s.toList, c.isDigit) ∧ 0 < radixValue 10 s.toList

/-- At least nine columns, the second of them an id. -/
def IsProcessRow (row : String) : Prop :=
  9 ≤ (splitSpaces row).length ∧
    ∀ pid, (splitSpaces row)[1]? = some pid → IsPositiveDecimal pid

def processRows (line : String) : List String := (split '\n' line).tail

/-- The header line, and a process in each row behind it. -/
def IsProcessTable (line : String) : Prop :=
  (∃ header, (split '\n' line).head? = some header ∧ startsWith "USER" header) ∧
    ∀ row ∈ processRows line, IsProcessRow row

/-- The last column has the name. -/
def namesTcpdump (row : String) : Bool := ((splitSpaces row).getLast?).any (contains tcpdumpPname)

/-- The process is no zombie. -/
def notZombie (row : String) : Bool := (splitSpaces row)[7]? ≠ some "Z"

/-- Its id is an `int`. -/
def hasIntId (row : String) : Bool :=
  ((splitSpaces row)[1]?).any fun pid => radixValue 10 pid.toList < 2 ^ 31

/-! ## The loops -/

section Rows

variable {row : String} {rows : List String}

/-- A row of a process has a last column. -/
theorem lastColumn_of_row (h : IsProcessRow row) :
    ∃ pName, lastColumn (splitSpaces row) = .ok pName ∧
      namesTcpdump row = contains tcpdumpPname pName := by
  unfold lastColumn namesTcpdump
  cases hlast : (splitSpaces row).getLast? with
  | none =>
      have hnine := h.1
      rw [List.getLast?_eq_none_iff.mp hlast] at hnine
      exact absurd hnine (by decide)
  | some pName => exact ⟨pName, rfl, rfl⟩

/-- And the ones before it. -/
theorem column_of_row (h : IsProcessRow row) {i : ℕ} (hi : i < 9) :
    ∃ s, column (splitSpaces row) i = .ok s ∧ (splitSpaces row)[i]? = some s := by
  have hin : i < (splitSpaces row).length := Nat.lt_of_lt_of_le hi h.1
  unfold column
  rw [List.getElem?_eq_getElem hin]
  exact ⟨_, rfl, rfl⟩

/-- The first row that names tcpdump decides. -/
theorem tcpdumpRows_cons (h : IsProcessRow row) (rows : List String) :
    tcpdumpRows (row :: rows) = if namesTcpdump row then .ok true else tcpdumpRows rows := by
  obtain ⟨pName, hlast, hnames⟩ := lastColumn_of_row h
  rw [tcpdumpRows, hlast, hnames]
  rfl

/-- The first detector looks at the names alone. -/
theorem tcpdumpRows_eq (h : ∀ row ∈ rows, IsProcessRow row) :
    tcpdumpRows rows = .ok (rows.any namesTcpdump) := by
  induction rows with
  | nil => rfl
  | cons row rows ih =>
      rw [tcpdumpRows_cons (h row List.mem_cons_self), List.any_cons,
        ih fun r hr => h r (List.mem_cons_of_mem row hr)]
      cases namesTcpdump row with
      | true => rfl
      | false => rfl

/-- The id that the second detector takes from a row. -/
def liveProcessId (row : String) : Option Int :=
  if namesTcpdump row ∧ notZombie row then ((splitSpaces row)[1]?).bind parseInt else none

/-- What contains the name is not empty. -/
theorem length_pos_of_contains {pName : String} (h : contains tcpdumpPname pName) :
    pName.length > 0 := by
  apply Nat.pos_of_ne_zero
  intro hzero
  rw [String.length_eq_zero_iff.mp hzero] at h
  exact absurd h (by decide)

theorem length_pos_of_positive {pid : String} (h : IsPositiveDecimal pid) : pid.length > 0 := by
  apply Nat.pos_of_ne_zero
  intro hzero
  have hpos := h.2
  rw [String.length_eq_zero_iff.mp hzero] at hpos
  exact absurd hpos (by decide)

/-- The first row of a live process decides. -/
theorem processIdRows_cons (h : IsProcessRow row) (rows : List String) :
    processIdRows (row :: rows) =
      match liveProcessId row with
      | some pid => .ok pid
      | none => processIdRows rows := by
  obtain ⟨pName, hlast, hnames⟩ := lastColumn_of_row h
  obtain ⟨state, hstate, hstateAt⟩ := column_of_row h (i := 7) (by decide)
  obtain ⟨temp, htemp, htempAt⟩ := column_of_row h (i := 1) (by decide)
  unfold liveProcessId notZombie
  rw [processIdRows, hlast, hnames, hstateAt, htempAt]
  change (if pName.length > 0 ∧ contains tcpdumpPname pName then
    column (splitSpaces row) 7 >>= _ else _) = _
  by_cases hname : contains tcpdumpPname pName
  · rw [if_pos ⟨length_pos_of_contains hname, hname⟩, hstate]
    change (if state = "Z" then _ else column (splitSpaces row) 1 >>= _) = _
    by_cases hz : state = "Z"
    · rw [if_pos hz, if_neg (by simp [hz])]
    · have hlength := length_pos_of_positive (h.2 temp htempAt)
      rw [if_neg hz, if_pos (by simp [hz, hname]), htemp]
      exact if_pos hlength
  · rw [if_neg fun hboth => hname hboth.2, if_neg fun hboth => hname hboth.1]

/-- It takes the first one, and zero when there is none. -/
theorem processIdRows_eq (h : ∀ row ∈ rows, IsProcessRow row) :
    processIdRows rows = .ok ((rows.findSome? liveProcessId).getD 0) := by
  induction rows with
  | nil => rfl
  | cons row rows ih =>
      rw [processIdRows_cons (h row List.mem_cons_self), List.findSome?_cons,
        ih fun r hr => h r (List.mem_cons_of_mem row hr)]
      cases liveProcessId row with
      | some pid => rfl
      | none => rfl

/-- A process id is read when it is an `int`. -/
theorem parseInt_of_positive {pid : String} (h : IsPositiveDecimal pid) :
    parseInt pid =
      if radixValue 10 pid.toList < 2 ^ 31 then some (radixValue 10 pid.toList : Int)
        else none := by
  have hne : pid.toList ≠ [] := by
    intro hnil
    have hpos := h.2
    rw [hnil] at hpos
    exact absurd hpos (by decide)
  have hall : pid.toList.all fun d => (charDigit 10 d).isSome := by
    rw [List.all_eq_true]
    intro c hc
    rw [charDigit_of_isDigit (by decide) (h.1 c hc)]
    rfl
  unfold parseInt
  rw [parseRadix_of_digits hne hall]
  split
  · exact Option.filter_some_pos (decide_eq_true (by omega))
  · exact Option.filter_some_neg (decide_eq_false (by omega))

/-- The second detector finds a process in a row when the process is there, is no
zombie and has an `int` for its id. -/
theorem liveProcessId_isSome (h : IsProcessRow row) :
    (liveProcessId row).isSome ↔ namesTcpdump row ∧ notZombie row ∧ hasIntId row := by
  obtain ⟨pid, -, hpidAt⟩ := column_of_row h (i := 1) (by decide)
  unfold liveProcessId hasIntId
  rw [hpidAt, Option.bind_some, Option.any_some, parseInt_of_positive (h.2 pid hpidAt),
    decide_eq_true_iff]
  by_cases hseen : namesTcpdump row = true ∧ notZombie row = true
  · rw [if_pos hseen, and_iff_right hseen.1, and_iff_right hseen.2]
    split
    · rename_i hint
      exact iff_of_true rfl hint
    · rename_i hint
      exact iff_of_false Bool.false_ne_true hint
  · rw [if_neg hseen]
    exact iff_of_false Bool.false_ne_true fun hall => hseen ⟨hall.1, hall.2.1⟩

theorem liveProcessId_ne_zero (h : IsProcessRow row) {pid : Int}
    (hpid : liveProcessId row = some pid) : pid ≠ 0 := by
  obtain ⟨temp, -, htempAt⟩ := column_of_row h (i := 1) (by decide)
  have hpositive := h.2 temp htempAt
  unfold liveProcessId at hpid
  rw [htempAt, Option.bind_some, parseInt_of_positive hpositive] at hpid
  split at hpid
  · split at hpid
    · have hpos := hpositive.2
      have hvalue := Option.some.inj hpid
      omega
    · exact absurd hpid.symm (Option.some_ne_none pid)
  · exact absurd hpid.symm (Option.some_ne_none pid)

end Rows

/-! ## The detectors -/

section Table

variable {executePS : String → Except JavaException String} {processName line : String}

/-- What is read of a table: its header and its rows. -/
theorem IsProcessTable.exists_header (h : IsProcessTable line) :
    ∃ header, split '\n' line = header :: processRows line ∧ startsWith "USER" header := by
  obtain ⟨⟨header, hhead, huser⟩, -⟩ := h
  obtain ⟨rows, hlines⟩ := List.head?_eq_some_iff.mp hhead
  refine ⟨header, ?_, huser⟩
  unfold processRows
  rw [hlines, List.tail_cons]

/-- The first detector asks for the name only. -/
theorem isTcpdumpRunning_iff (hps : executePS tcpdumpProcessName = .ok line)
    (htable : IsProcessTable line) :
    isTcpdumpRunning executePS = .ok true ↔ ∃ row ∈ processRows line, namesTcpdump row := by
  obtain ⟨header, hlines, huser⟩ := htable.exists_header
  unfold isTcpdumpRunning
  rw [hps]
  dsimp only
  rw [hlines]
  dsimp only
  rw [if_pos huser, tcpdumpRows_eq htable.2, ← List.any_eq_true]
  exact ⟨fun h => Except.ok.inj h, fun h => congrArg _ h⟩

/-- The second one returns the first live process that has it. -/
theorem getProcessID_eq (hps : executePS processName = .ok line) (htable : IsProcessTable line) :
    getProcessID executePS processName =
      .ok (((processRows line).findSome? liveProcessId).getD 0) := by
  obtain ⟨header, hlines, huser⟩ := htable.exists_header
  unfold getProcessID
  rw [hps]
  change (match split '\n' line with
    | [] => _
    | header :: rows => if startsWith "USER" header then processIdRows rows else _) = _
  rw [hlines]
  dsimp only
  rw [if_pos huser, processIdRows_eq htable.2]

/-- It returns one exactly when there is one with an id. -/
theorem getProcessID_iff (hps : executePS processName = .ok line) (htable : IsProcessTable line) :
    (∃ pid, getProcessID executePS processName = .ok pid ∧ pid ≠ 0) ↔
      ∃ row ∈ processRows line, namesTcpdump row ∧ notZombie row ∧ hasIntId row := by
  have hrows := htable.2
  rw [getProcessID_eq hps htable]
  constructor
  · intro ⟨pid, hpid, hne⟩
    cases hfound : (processRows line).findSome? liveProcessId with
    | none =>
        rw [hfound] at hpid
        exact absurd (Except.ok.inj hpid).symm hne
    | some found =>
        obtain ⟨row, hmem, hrow⟩ := List.exists_of_findSome?_eq_some hfound
        refine ⟨row, hmem, (liveProcessId_isSome (hrows row hmem)).mp ?_⟩
        rw [hrow]
        rfl
  · intro ⟨row, hmem, hseen⟩
    have hsome : ((processRows line).findSome? liveProcessId).isSome :=
      List.findSome?_isSome_iff.mpr ⟨row, hmem, (liveProcessId_isSome (hrows row hmem)).mpr hseen⟩
    obtain ⟨pid, hfound⟩ := Option.isSome_iff_exists.mp hsome
    obtain ⟨row', hmem', hrow'⟩ := List.exists_of_findSome?_eq_some hfound
    rw [hfound]
    exact ⟨pid, rfl, liveProcessId_ne_zero (hrows row' hmem') hrow'⟩

/-- The two agree exactly when a tcpdump that is listed is there to be killed. -/
theorem detectors_agree_iff (hps : executePS tcpdumpProcessName = .ok line)
    (hsame : executePS processName = .ok line) (htable : IsProcessTable line) :
    (isTcpdumpRunning executePS = .ok true ↔
        ∃ pid, getProcessID executePS processName = .ok pid ∧ pid ≠ 0) ↔
      ((∃ row ∈ processRows line, namesTcpdump row) →
        ∃ row ∈ processRows line, namesTcpdump row ∧ notZombie row ∧ hasIntId row) := by
  rw [isTcpdumpRunning_iff hps htable, getProcessID_iff hsame htable]
  constructor
  · exact fun hagree => hagree.mp
  · intro hlive
    exact ⟨hlive, fun ⟨row, hmem, hseen⟩ => ⟨row, hmem, hseen.1⟩⟩

end Table

/-! ## A zombie -/

def psHeader : String := "USER PID PPID VSIZE RSS WCHAN PC STATE NAME"

/-- The columns of a tcpdump in the given state. -/
def psColumns (state : String) : List String :=
  ["root", "912", "1", "0", "0", "0", "0", state, "sjtu.omnilab.omniperf/tcpdump"]

def psRow (state : String) : String := String.intercalate " " (psColumns state)

/-- The table with that row. -/
def psOf (state : String) : String :=
  String.ofList (List.intercalate ['\n'] ([psHeader, psRow state].map String.toList))

/-- The lines of the table. -/
theorem split_psOf {state : String} (h : state = "S" ∨ state = "Z") :
    split '\n' (psOf state) = [psHeader, psRow state] := by
  have hlines : ∀ l ∈ [psHeader, psRow state], '\n' ∉ l.toList ∧ l ≠ "" := by
    rcases h with rfl | rfl
    · decide +kernel
    · decide +kernel
  exact split_intercalate (List.cons_ne_nil _ _) (fun l hl => (hlines l hl).1)
    fun l hl => (hlines l hl).2

/-- The columns of its row. -/
theorem splitSpaces_psRow {state : String} (h : state = "S" ∨ state = "Z") :
    splitSpaces (psRow state) = psColumns state := by
  rcases h with rfl | rfl
  · decide +kernel
  · decide +kernel

/-- Its only process. -/
theorem processRows_psOf {state : String} (h : state = "S" ∨ state = "Z") :
    processRows (psOf state) = [psRow state] := by
  unfold processRows
  rw [split_psOf h]
  rfl

/-- It is a table of processes. -/
theorem psOf_table {state : String} (h : state = "S" ∨ state = "Z") :
    IsProcessTable (psOf state) := by
  refine ⟨⟨psHeader, ?_, by decide +kernel⟩, fun row hrow => ?_⟩
  · rw [split_psOf h]
    rfl
  · rw [processRows_psOf h] at hrow
    rw [List.mem_singleton.mp hrow]
    unfold IsProcessRow
    rw [splitSpaces_psRow h]
    refine ⟨Nat.le_refl 9, fun pid hpid => ?_⟩
    rw [← Option.some.inj hpid]
    have hdigits : "912".toList.all Char.isDigit := by decide
    exact ⟨List.all_eq_true.mp hdigits, by decide⟩

theorem namesTcpdump_psRow {state : String} (h : state = "S" ∨ state = "Z") :
    namesTcpdump (psRow state) := by
  have hlast : (psColumns state).getLast? = some "sjtu.omnilab.omniperf/tcpdump" := rfl
  have hname : contains tcpdumpPname "sjtu.omnilab.omniperf/tcpdump" := by decide +kernel
  unfold namesTcpdump
  rw [splitSpaces_psRow h, hlast]
  exact hname

/-- Both see one that sleeps. -/
theorem detectors_agree_iff_sleeping :
    (isTcpdumpRunning fun _ => .ok (psOf "S")) = .ok true ↔
      ∃ pid, getProcessID (fun _ => .ok (psOf "S")) tcpdumpProcessName = .ok pid ∧ pid ≠ 0 := by
  have hlive : ∃ row ∈ processRows (psOf "S"),
      namesTcpdump row ∧ notZombie row ∧ hasIntId row := by
    rw [processRows_psOf (.inl rfl)]
    refine ⟨_, List.mem_cons_self, namesTcpdump_psRow (.inl rfl), ?_⟩
    unfold notZombie hasIntId
    rw [splitSpaces_psRow (.inl rfl)]
    decide
  exact (@detectors_agree_iff (fun _ => .ok (psOf "S")) tcpdumpProcessName (psOf "S") rfl rfl
    (psOf_table (.inl rfl))).mpr fun _ => hlive

/-- A dead one is running for the first and has no id for the second. -/
theorem detectors_disagree_on_zombie :
    ¬ ∀ (executePS : String → Except JavaException String) (processName line : String),
      executePS tcpdumpProcessName = .ok line → executePS processName = .ok line →
      IsProcessTable line →
      (isTcpdumpRunning executePS = .ok true ↔
        ∃ pid, getProcessID executePS processName = .ok pid ∧ pid ≠ 0) := by
  intro hall
  have hzombie : "Z" = "S" ∨ "Z" = "Z" := .inr rfl
  have htable := psOf_table hzombie
  have hagree := hall (fun _ => .ok (psOf "Z")) tcpdumpProcessName (psOf "Z") rfl rfl htable
  rw [@isTcpdumpRunning_iff (fun _ => .ok (psOf "Z")) (psOf "Z") rfl htable,
    @getProcessID_iff (fun _ => .ok (psOf "Z")) tcpdumpProcessName (psOf "Z") rfl htable,
    processRows_psOf hzombie] at hagree
  obtain ⟨row, hrow, -, hstate, -⟩ :=
    hagree.mp ⟨_, List.mem_cons_self, namesTcpdump_psRow hzombie⟩
  rw [List.mem_singleton.mp hrow] at hstate
  unfold notZombie at hstate
  rw [splitSpaces_psRow hzombie] at hstate
  exact absurd hstate (by decide)

end MobiPerf.Collector
