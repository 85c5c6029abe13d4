import MobiPerf.Capture.KeyDb
import MobiPerf.Lib.Repeats
import MobiPerf.SocketProc.NetFormat

/-!
# Capture.KeyTable — what the key database leaves in the table

`ReadDeviceKeyDB` stores what it takes for an entry (`taken`), one after the other. What
that is can be told from the text: the lines are read in pieces (`KeyDb.pieces`), and
each piece is tested with the numbers it begins with, or those that were left before it
(`scanned`).

* `loadsExactly_iff`: the table holds exactly the wanted entries of the database if and
  only if these are, event file by event file, the tested numbers that are wanted, up to
  a device -1, and no row reaches into one that is in use. Where every line fits the
  buffer, they are so when as many wanted entries are lost behind a device -1 as are
  taken again at a long comment, all of them from the first taken again on being one
  entry: none lost and none taken again, for the most part.
* `not_loadsExactly_sixteen`: sixteen entries for one event file overwrite the entry
  of the next one.
-/

namespace MobiPerf.Capture

open Lib
open SocketProc (BYTE Bytes cString fgets fgetsLines takeLine)

/-! ## The table -/

/-- An entry for the matched device or for any. -/
def Wanted (matched : Option Int) (r : Registers) : Prop :=
  matched = some r.device ∨ r.device = deviceAgnostic

instance (matched : Option Int) (r : Registers) : Decidable (Wanted matched r) :=
  inferInstanceAs (Decidable (_ ∨ _))

/-- The entries of an event file that are wanted, in file order. -/
def KeyDb.wanted (db : KeyDb) (gszDeviceLine : Bytes) (f : ℕ) : List KeyEntry :=
  (db.entries.filter fun r => Wanted (db.matched gszDeviceLine) r).filterMap fun r =>
    if r.inputFile = (f : Int) then some r.ke else none

/-- The table that is loaded holds in each row exactly the entries that are wanted. -/
def LoadsExactly (db : KeyDb) (gszDeviceLine : Bytes) (gDeviceKeyArray : ℕ → DeviceKeyInfo)
    (garbage : Registers) : Prop :=
  ∃ s t, readDeviceKeyDB gszDeviceLine gDeviceKeyArray garbage db.text = some (s, t) ∧
    t.Exact maxKeyEntries (maxInputFileId + 1) (db.wanted gszDeviceLine)

/-- What the loop stores, in order. -/
def taken (gszDeviceLine : Bytes) : List Bytes → Scan → List (Int × KeyEntry)
  | [], _ => []
  | line :: lines, s =>
    match readLine gszDeviceLine line s with
    | (s, .skip) => taken gszDeviceLine lines s
    | (_, .stop) => []
    | (s, .store inputFile ke) => (inputFile, ke) :: taken gszDeviceLine lines s

/-- What is for event file `f`. -/
def rowOf (items : List (Int × KeyEntry)) (f : ℕ) : List KeyEntry :=
  items.filterMap fun x => if x.1 = (f : Int) then some x.2 else none

def storeAll (items : List (Int × KeyEntry)) (t : KeyTable) : Option KeyTable :=
  items.foldlM (fun t x => t.store x.1 x.2) t

/-- The loop stores what it takes. -/
theorem readLines_eq (gszDeviceLine : Bytes) (lines : List Bytes) (s : Scan) (t : KeyTable) :
    (readLines gszDeviceLine lines s t).map Prod.snd =
      storeAll (taken gszDeviceLine lines s) t := by
  induction lines generalizing s t with
  | nil => rfl
  | cons line lines ih =>
    cases hread : readLine gszDeviceLine line s with
    | mk s' effect =>
      cases effect with
      | skip =>
        simp only [readLines, taken, hread]
        exact ih s' t
      | stop =>
        simp only [readLines, taken, hread]
        rfl
      | store inputFile ke =>
        simp only [readLines, taken, hread]
        show _ = (t.store inputFile ke).bind fun t => storeAll (taken gszDeviceLine lines s') t
        rw [Option.map_bind]
        exact congrArg _ (funext fun t => ih s' t)

/-- What is stored has a file number. -/
theorem nonneg_of_storeAll {items : List (Int × KeyEntry)} {t t' : KeyTable}
    (h : storeAll items t = some t') : ∀ x ∈ items, 0 ≤ x.1 := by
  induction items generalizing t with
  | nil => simp
  | cons x items ih =>
    rcases Option.bind_eq_some_iff.mp h with ⟨t₁, hstore, hrest⟩
    refine List.forall_mem_cons.mpr ⟨?_, ih hrest⟩
    rcases x with ⟨f | f, ke⟩
    · exact Int.natCast_nonneg f
    · cases hstore

/-- The stores are the appends of a table of rows. -/
theorem storeAll_natCast (items : List (ℕ × KeyEntry)) (t : KeyTable) :
    storeAll (items.map fun x => ((x.1 : Int), x.2)) t =
      items.foldlM (fun t x => t.append maxKeyEntries (maxInputFileId + 1) x.1 x.2) t := by
  unfold storeAll
  rw [List.foldlM_map]
  rfl

theorem rowOf_natCast (items : List (ℕ × KeyEntry)) (f : ℕ) :
    rowOf (items.map fun x => ((x.1 : Int), x.2)) f = FlatRows.row items f := by
  unfold rowOf FlatRows.row
  rw [List.filterMap_map]
  refine List.filterMap_congr fun x _ => ?_
  simp only [Function.comp_apply, Nat.cast_inj]

/-- All items are for event files, and each row is what it should be. -/
def Agrees (items : List (Int × KeyEntry)) (rows : ℕ → List KeyEntry) : Prop :=
  (∀ x ∈ items, 0 ≤ x.1 ∧ x.1 ≤ maxInputFileId) ∧ ∀ f ≤ maxInputFileId, rowOf items f = rows f

/-- The table is exact when what is stored agrees with the rows, and they are apart. -/
theorem storeAll_exact_iff {items : List (Int × KeyEntry)} {rows : ℕ → List KeyEntry} :
    (∃ t, storeAll items FlatRows.empty = some t ∧
        t.Exact maxKeyEntries (maxInputFileId + 1) rows) ↔
      Agrees items rows ∧
        FlatRows.Apart maxKeyEntries (maxInputFileId + 1) fun f => (rows f).length := by
  by_cases hnonneg : ∀ x ∈ items, 0 ≤ x.1
  · obtain ⟨items, rfl⟩ : ∃ nats : List (ℕ × KeyEntry),
        items = nats.map fun x => ((x.1 : Int), x.2) := by
      refine ⟨items.map fun x => (x.1.toNat, x.2), ?_⟩
      rw [List.map_map]
      exact (List.map_id items).symm.trans (List.map_congr_left fun x hx =>
        Prod.ext (Int.toNat_of_nonneg (hnonneg x hx)).symm rfl)
    have hrange : (∀ x ∈ items.map fun x => ((x.1 : Int), x.2), 0 ≤ x.1 ∧ x.1 ≤ maxInputFileId) ↔
        ∀ x ∈ items, x.1 < maxInputFileId + 1 := by
      rw [List.forall_mem_map]
      refine forall₂_congr fun x _ => ?_
      rw [and_iff_right (Int.natCast_nonneg _), Int.ofNat_le, Nat.lt_succ_iff]
    rw [Agrees, hrange]
    simp only [storeAll_natCast, rowOf_natCast, ← Nat.lt_succ_iff]
    exact FlatRows.exact_iff
  · constructor
    · rintro ⟨t, ht, -⟩
      exact absurd (nonneg_of_storeAll ht) hnonneg
    · rintro ⟨⟨hrange, -⟩, -⟩
      exact absurd (fun x hx => (hrange x hx).1) hnonneg

/-! ## What is taken -/

/-- The numbers that are tested, piece by piece: those a piece begins with, and of the
others what the piece before left. -/
def scanned (g : Registers) : List Bytes → List Registers
  | [] => []
  | piece :: pieces =>
    if piece.length ≤ 5 then scanned g pieces
    else g.assign (scanInts 7 piece) :: scanned (g.assign (scanInts 7 piece)) pieces

def Registers.item (r : Registers) : Int × KeyEntry := (r.inputFile, r.ke)

/-- The numbers that are taken for entries: those up to the first whose device is -1, if
wanted. -/
def takenOf (matched : Option Int) (rs : List Registers) : List (Int × KeyEntry) :=
  ((rs.takeWhile fun r => r.device ≠ -1).filter fun r => Wanted matched r).map Registers.item

section Taken

variable {gszDeviceLine line : Bytes} {lines : List Bytes} {s : Scan} {matched : Option Int}

/-- The numbers of a line are stored when they are wanted. -/
theorem effect_of_ne (hmatched : s.myDevice = matched.getD (-1)) (hne : s.registers.device ≠ -1) :
    s.effect = if Wanted matched s.registers then .store s.registers.inputFile s.registers.ke
      else .skip := by
  have hiff : (s.registers.device ≠ s.myDevice ∧ s.registers.device ≠ deviceAgnostic) ↔
      ¬ Wanted matched s.registers := by
    unfold Wanted
    rw [not_or, hmatched]
    refine and_congr_left fun _ => not_congr ?_
    cases matched with
    | none => simp [hne]
    | some device => simp [eq_comm]
  unfold Scan.effect
  rw [if_neg hne]
  by_cases hw : Wanted matched s.registers
  · rw [if_neg (fun h => hiff.mp h hw), if_pos hw]
  · rw [if_pos (hiff.mpr hw), if_neg hw]

/-- A line whose numbers are tested. -/
theorem taken_cons (hmatched : s.myDevice = matched.getD (-1)) {s₀ : Scan}
    (hline : readLine gszDeviceLine line s₀ = (s, s.effect)) :
    taken gszDeviceLine (line :: lines) s₀ =
      if s.registers.device = -1 then []
      else if Wanted matched s.registers then s.registers.item :: taken gszDeviceLine lines s
      else taken gszDeviceLine lines s := by
  rw [taken, hline]
  by_cases hstop : s.registers.device = -1
  · have heffect : s.effect = .stop := if_pos hstop
    rw [heffect, if_pos hstop]
  · rw [effect_of_ne hmatched hstop, if_neg hstop]
    split_ifs <;> rfl

/-- What is taken of the first line, and of those behind it. -/
theorem takenOf_cons (r : Registers) (rs : List Registers) :
    takenOf matched (r :: rs) =
      if r.device = -1 then []
      else if Wanted matched r then r.item :: takenOf matched rs
      else takenOf matched rs := by
  unfold takenOf
  rw [List.takeWhile_cons]
  by_cases hstop : r.device = -1
  · simp [hstop]
  · by_cases hw : Wanted matched r <;> simp [hstop, hw]

/-- A piece of a line that names no device. -/
theorem taken_pieces (hmatched : s.myDevice = matched.getD (-1)) {pieces : List Bytes}
    (hclean : ∀ p ∈ pieces, ∀ b ∈ p, b ≠ 0) (hplain : ∀ p ∈ pieces, p.take 6 ≠ devicePrefix) :
    taken gszDeviceLine pieces s = takenOf matched (scanned s.registers pieces) := by
  induction pieces generalizing s with
  | nil => rfl
  | cons p pieces ih =>
    rw [List.forall_mem_cons] at hclean hplain
    have hstr : cString p = p := List.takeWhile_eq_self_iff.mpr fun b hb => by
      simpa using hclean.1 b hb
    by_cases hshort : p.length ≤ 5
    · have hread : readLine gszDeviceLine p s = (s, .skip) := by
        simp [readLine, hstr, hshort]
      rw [taken, hread, scanned, if_pos hshort]
      exact ih hmatched hclean.2 hplain.2
    · have hmatched' : ({ s with registers := s.registers.assign (scanInts 7 p) } : Scan).myDevice =
          matched.getD (-1) := hmatched
      have hread : readLine gszDeviceLine p s =
          ({ s with registers := s.registers.assign (scanInts 7 p) },
            Scan.effect { s with registers := s.registers.assign (scanInts 7 p) }) := by
        simp [readLine, hstr, hshort, hplain.1]
      rw [taken_cons hmatched' hread, scanned, if_neg hshort, takenOf_cons,
        ih hmatched' hclean.2 hplain.2]

/-- What the `DEVICE` lines leave: the device of the last one that matches. -/
theorem taken_devices (devices : List DeviceLine) (hmatched : s.myDevice = matched.getD (-1)) :
    ∃ s' : Scan, s'.registers = s.registers ∧
      s'.myDevice = ((((devices.take (maxDevices - s.iDeviceIdx)).filter
        fun d => d.Matches gszDeviceLine).getLast?.map (·.id.value)).or matched).getD (-1) ∧
      taken gszDeviceLine (devices.map (·.text) ++ lines) s = taken gszDeviceLine lines s' := by
  induction devices generalizing s matched with
  | nil => exact ⟨s, rfl, by simpa using hmatched, rfl⟩
  | cons d devices ih =>
    have hline : taken gszDeviceLine ((d :: devices).map (·.text) ++ lines) s =
        taken gszDeviceLine (devices.map (·.text) ++ lines)
          (readDevice gszDeviceLine d.text s) := by
      rw [List.map_cons, List.cons_append, taken, readLine_device]
    rw [hline]
    by_cases hroom : s.iDeviceIdx < maxDevices
    · have hread : readDevice gszDeviceLine d.text s = _ := readDevice_text d hroom
      have hregisters : (readDevice gszDeviceLine d.text s).registers = s.registers := by
        rw [hread]
      have hdevice : (readDevice gszDeviceLine d.text s).myDevice =
          ((if d.Matches gszDeviceLine then some d.id.value else none).or matched).getD (-1) := by
        rw [hread]
        dsimp only
        split
        · rfl
        · exact hmatched
      obtain ⟨n, hn⟩ : ∃ n, maxDevices - s.iDeviceIdx = n + 1 :=
        ⟨maxDevices - s.iDeviceIdx - 1, by omega⟩
      have hleft : maxDevices - (readDevice gszDeviceLine d.text s).iDeviceIdx = n := by
        rw [hread]
        show maxDevices - (s.iDeviceIdx + 1) = n
        omega
      obtain ⟨s', hregisters', hmyDevice, htaken⟩ := ih hdevice
      refine ⟨s', hregisters'.trans hregisters, ?_, htaken⟩
      rw [hmyDevice, hleft, hn, List.take_succ_cons, ← Option.or_assoc]
      by_cases hmatch : d.Matches gszDeviceLine
      · rw [List.filter_cons_of_pos (by simpa using hmatch), List.getLast?_cons, if_pos hmatch]
        cases ((devices.take n).filter fun d => d.Matches gszDeviceLine).getLast? <;> rfl
      · rw [List.filter_cons_of_neg (by simpa using hmatch), if_neg hmatch, Option.or_none]
    · -- the table of devices is full
      have hnone : maxDevices - s.iDeviceIdx = 0 := by omega
      rw [readDevice_full d hroom, hnone]
      have h := ih hmatched
      rw [hnone] at h
      exact h

end Taken

/-! ## The pieces of the text -/

/-- What `fgets` reads and what it leaves make up the text. -/
theorem takeLine_eq (n : ℕ) (bs : Bytes) : (takeLine n bs).1 ++ (takeLine n bs).2 = bs := by
  induction n generalizing bs with
  | zero => rfl
  | succ n ih =>
    cases bs with
    | nil => rfl
    | cons b bs =>
      rw [takeLine]
      split
      · rfl
      · exact congrArg (b :: ·) (ih bs)

/-- The pieces are made of the bytes of the stream. -/
theorem mem_of_mem_fgetsLines {n fuel : ℕ} {bs p : Bytes} (hp : p ∈ fgetsLines n fuel bs) :
    ∀ b ∈ p, b ∈ bs := by
  induction fuel generalizing bs with
  | zero => cases hp
  | succ fuel ih =>
    have hline := takeLine_eq (n - 1) bs
    unfold fgetsLines fgets at hp
    split at hp
    · cases hp
    · rename_i line rest hread
      split at hread
      · cases hread
      · rw [Option.some.inj hread] at hline
        rw [← hline]
        intro b hb
        rcases List.mem_cons.mp hp with rfl | hp
        · exact List.mem_append_left _ hb
        · exact List.mem_append_right _ (ih hp b hb)

/-- Each piece is a byte at least, so that the length of the stream is fuel enough. -/
theorem fgetsLines_fuel {n fuel fuel' : ℕ} (hn : 2 ≤ n) {bs : Bytes} (hfuel : bs.length ≤ fuel)
    (hfuel' : bs.length ≤ fuel') : fgetsLines n fuel bs = fgetsLines n fuel' bs := by
  induction fuel generalizing fuel' bs with
  | zero =>
    obtain rfl : bs = [] := List.length_eq_zero_iff.mp (Nat.le_zero.mp hfuel)
    cases fuel' <;> rfl
  | succ fuel ih =>
    cases bs with
    | nil => cases fuel' <;> rfl
    | cons b bs =>
      obtain ⟨fuel', rfl⟩ : ∃ k, fuel' = k + 1 := ⟨fuel' - 1, by simp at hfuel'; omega⟩
      obtain ⟨m, hm⟩ : ∃ m, n - 1 = m + 1 := ⟨n - 2, by omega⟩
      have hline := congrArg List.length (takeLine_eq (m + 1) (b :: bs))
      have hpos : (takeLine (m + 1) (b :: bs)).1 ≠ [] := by
        rw [takeLine]
        split <;> simp
      rcases htake : takeLine (m + 1) (b :: bs) with ⟨line, rest⟩
      rw [htake] at hline hpos
      dsimp only at hline hpos
      have hlength := List.length_pos_iff.mpr hpos
      rw [List.length_append] at hline
      have hget : fgets n (b :: bs) = some (line, rest) := by
        rw [fgets, if_neg (List.cons_ne_nil b bs), hm, htake]
      rw [fgetsLines, fgetsLines, hget]
      exact congrArg _ (ih (by omega) (by omega))

/-- The last line of a file, without a newline. -/
theorem takeLine_last {body : Bytes} {n : ℕ} (hclean : ∀ b ∈ body, b ≠ 10)
    (hlength : body.length ≤ n) : takeLine n body = (body, []) := by
  induction body generalizing n with
  | nil => cases n <;> rfl
  | cons b body ih =>
    simp only [List.forall_mem_cons] at hclean
    cases n with
    | zero => cases hlength
    | succ n => rw [takeLine, if_neg hclean.1, ih hclean.2 (Nat.le_of_succ_le_succ hlength)]

/-- A line is taken whole, whether it ends in a newline or ends the file. -/
theorem takeLine_text {l : TextLine} {n : ℕ} {rest : Bytes} (hlength : l.text.length ≤ n)
    (hrest : l.newline = false → rest = []) : takeLine n (l.text ++ rest) = (l.text, rest) := by
  have hclean : ∀ b ∈ l.body, b ≠ 10 := fun b hb => (l.clean b hb).2
  unfold TextLine.text at hlength ⊢
  cases hnewline : l.newline with
  | true =>
    rw [hnewline] at hlength
    have hlt : l.body.length < n := Nat.lt_of_succ_le (by simpa using hlength)
    rw [if_pos rfl, List.append_assoc, List.singleton_append]
    exact SocketProc.takeLine_append l.body rest hclean hlt
  | false =>
    rw [hnewline] at hlength
    have hle : l.body.length ≤ n := by simpa using hlength
    rw [hrest hnewline]
    simp only [Bool.false_eq_true, if_false, List.append_nil]
    exact takeLine_last hclean hle

/-- A line is not empty. -/
theorem TextLine.text_ne_nil (l : TextLine) : l.text ≠ [] := by
  unfold TextLine.text
  rcases l.text_ne with hbody | hnewline
  · exact List.append_ne_nil_of_left_ne_nil hbody _
  · simp [hnewline]

/-- There are no more lines than bytes. -/
theorem length_le_flatten (ls : List TextLine) : ls.length ≤ (ls.map (·.text)).flatten.length := by
  induction ls with
  | nil => exact Nat.le_refl _
  | cons l ls ih =>
    have hpos := List.length_pos_iff.mpr l.text_ne_nil
    rw [List.map_cons, List.flatten_cons, List.length_append, List.length_cons]
    omega

/-- `fgets` gives lines that fit one by one, and goes on with what follows them. -/
theorem fgetsLines_text (ls : List TextLine) (rest : Bytes) (fuel : ℕ)
    (hfits : ∀ l ∈ ls, l.text.length ≤ 254) (hnewline : ∀ l ∈ ls.dropLast, l.newline = true)
    (hlast : rest ≠ [] → ∀ l ∈ ls, l.newline = true) :
    fgetsLines 255 (ls.length + fuel) ((ls.map (·.text)).flatten ++ rest) =
      ls.map (·.text) ++ fgetsLines 255 fuel rest := by
  induction ls with
  | nil =>
    rw [List.length_nil, Nat.zero_add]
    rfl
  | cons l ls ih =>
    rw [List.forall_mem_cons] at hfits
    have hbehind : l.newline = false → (ls.map (·.text)).flatten ++ rest = [] := by
      intro hfalse
      by_contra hne
      have htrue : l.newline = true := by
        cases ls with
        | nil => exact hlast (by simpa using hne) l List.mem_cons_self
        | cons l' ls => exact hnewline l (by simp)
      rw [hfalse] at htrue
      cases htrue
    have hrec := ih hfits.2 (fun l' hl' => hnewline l' ?_)
      fun hrest l' hl' => hlast hrest l' (List.mem_cons_of_mem l hl')
    · rw [List.length_cons, Nat.add_right_comm, List.map_cons, List.flatten_cons, List.append_assoc,
        SocketProc.fgetsLines_cons l.text_ne_nil (takeLine_text hfits.1 hbehind), hrec]
      rfl
    · cases ls with
      | nil => cases hl'
      | cons l'' ls => exact List.mem_cons_of_mem _ hl'

namespace KeyDb

/-- The text behind the `DEVICE` lines. -/
def rowText (db : KeyDb) : Bytes := (db.rows.map Row.text).flatten

/-- The pieces in which `fgets` gives it. -/
def pieces (db : KeyDb) : List Bytes := fgetsLines 255 db.rowText.length db.rowText

/-- The `DEVICE` lines are what names devices: each of them fits the buffer, and no piece
of a longer line begins like one. -/
structure DevicesWhole (db : KeyDb) : Prop where
  fit : ∀ d ∈ db.devices, d.text.length ≤ 254
  plain : ∀ p ∈ db.pieces, p.take 6 ≠ devicePrefix

variable {db : KeyDb}

variable (db) in
/-- The device lines come first. -/
theorem text_eq :
    db.text = ((db.devices.map (·.toTextLine)).map (·.text)).flatten ++ db.rowText := by
  rw [text, lines, List.flatten_append, List.map_map]
  rfl

/-- A database is read line by line when its device lines are not cut. -/
theorem fgetsLines_db (h : db.DevicesWhole) :
    fgetsLines 255 db.text.length db.text = db.devices.map (·.text) ++ db.pieces := by
  have hdevices := length_le_flatten (db.devices.map (·.toTextLine))
  have hlength := congrArg List.length (text_eq db)
  rw [List.length_append] at hlength
  obtain ⟨fuel, hfuel⟩ : ∃ fuel, db.text.length = (db.devices.map (·.toTextLine)).length + fuel :=
    ⟨db.text.length - (db.devices.map (·.toTextLine)).length, by omega⟩
  have hlast : db.rowText ≠ [] → ∀ l ∈ db.devices.map (·.toTextLine), l.newline = true := by
    intro hne l hl
    have hrows : db.rows.map Row.line ≠ [] := by
      rintro hnil
      rw [rowText, List.map_eq_nil_iff.mp hnil] at hne
      exact hne rfl
    refine db.newlines l ?_
    rw [List.dropLast_append_of_ne_nil hrows]
    exact List.mem_append_left _ hl
  have hnewline : ∀ l ∈ (db.devices.map (·.toTextLine)).dropLast, l.newline = true := by
    intro l hl
    refine db.newlines l ?_
    by_cases hrows : db.rows.map Row.line = []
    · rwa [hrows, List.append_nil]
    · rw [List.dropLast_append_of_ne_nil hrows]
      exact List.mem_append_left _ (List.dropLast_subset _ hl)
  have hread := fgetsLines_text _ db.rowText fuel (by simpa using h.fit) hnewline hlast
  rw [← hfuel, ← text_eq, List.map_map] at hread
  rw [hread]
  exact congrArg _ (fgetsLines_fuel (by decide) (by omega) (le_refl _))

/-- No piece has a terminating byte. -/
theorem clean_pieces : ∀ p ∈ db.pieces, ∀ b ∈ p, b ≠ 0 := by
  intro p hp b hb
  obtain ⟨text, htext, hb⟩ := List.mem_flatten.mp (mem_of_mem_fgetsLines hp b hb)
  obtain ⟨row, -, rfl⟩ := List.mem_map.mp htext
  have hclean := row.line.cString_text
  exact of_decide_eq_true (List.takeWhile_eq_self_iff.mp hclean b hb)

/-- What is taken can be told from the pieces. -/
theorem taken_text (h : db.DevicesWhole) (gszDeviceLine : Bytes)
    (gDeviceKeyArray : ℕ → DeviceKeyInfo) (garbage : Registers) :
    taken gszDeviceLine (fgetsLines 255 db.text.length db.text) (.start gDeviceKeyArray garbage) =
      takenOf (db.matched gszDeviceLine) (scanned garbage db.pieces) := by
  have hstart : (Scan.start gDeviceKeyArray garbage).myDevice = (none : Option Int).getD (-1) := rfl
  rw [fgetsLines_db h]
  obtain ⟨s, hregisters, hmyDevice, htaken⟩ := taken_devices db.devices hstart
  rw [Option.or_none] at hmyDevice
  rw [htaken, taken_pieces hmyDevice clean_pieces h.plain, hregisters]
  rfl

end KeyDb

/-! ## Lines that fit -/

/-- What is tested, line by line, where the lines fit: the numbers of an entry (`true`),
those of a line that ends the database, or, at a long comment, those left before it. -/
def readings (g : Registers) : List Row → List (Bool × Registers)
  | [] => []
  | .entry l _ :: rows => (true, l.registers) :: readings l.registers rows
  | .stop l _ :: rows => (false, l.registers) :: readings l.registers rows
  | .note l :: rows => if l.text.length ≤ 5 then readings g rows else (false, g) :: readings g rows

/-- The numbers that are read, line by line. -/
theorem map_snd_readings (g : Registers) (rows : List Row) :
    (readings g rows).map (·.2) = scanned g (rows.map Row.text) := by
  induction rows generalizing g with
  | nil => rfl
  | cons row rows ih =>
    -- both kinds of number lines are read alike
    have hnumber : ∀ l : NumberLine, scanned g (l.text :: rows.map Row.text) =
        l.registers :: scanned l.registers (rows.map Row.text) := by
      intro l
      rw [scanned, if_neg (Nat.not_le.mpr l.length_text), l.assign_text]
    cases row with
    | entry l hfile =>
      rw [readings, List.map_cons, ih]
      exact (hnumber l).symm
    | stop l hdevice =>
      rw [readings, List.map_cons, ih]
      exact (hnumber l).symm
    | note l =>
      show _ = scanned g (l.text :: rows.map Row.text)
      have hnone : g.assign (scanInts 7 l.text) = g := by
        rw [l.scanInts_text]
        rfl
      rw [readings, scanned, hnone]
      split
      · exact ih g
      · rw [List.map_cons, ih]

/-- The entries are the readings of their own lines. -/
theorem map_filter_readings (g : Registers) (rows : List Row) :
    ((readings g rows).filter (·.1)).map (·.2) = rows.filterMap Row.registers? := by
  induction rows generalizing g with
  | nil => rfl
  | cons row rows ih =>
    cases row with
    | entry l hfile =>
      rw [readings, List.filter_cons_of_pos rfl, List.map_cons, ih]
      rfl
    | stop l hdevice =>
      rw [readings, List.filter_cons_of_neg Bool.false_ne_true, ih]
      rfl
    | note l =>
      rw [readings]
      split
      · exact ih g
      · rw [List.filter_cons_of_neg Bool.false_ne_true, ih]
        rfl

/-- What is no entry is what was read before it, or ends the database. -/
theorem isChain_readings (b : Bool) (g : Registers) (rows : List Row) :
    ((b, g) :: readings g rows).IsChain
      fun x y => y.1 = false → y.2 = x.2 ∨ y.2.device = -1 := by
  induction rows generalizing b g with
  | nil => exact List.isChain_singleton _
  | cons row rows ih =>
    cases row with
    | entry l hfile => exact List.isChain_cons_cons.mpr ⟨nofun, ih true l.registers⟩
    | stop l hdevice =>
      exact List.isChain_cons_cons.mpr ⟨fun _ => .inr hdevice, ih false l.registers⟩
    | note l =>
      rw [readings]
      split
      · exact ih b g
      · exact List.isChain_cons_cons.mpr ⟨fun _ => .inl rfl, ih false g⟩

namespace KeyDb

/-- The readings that the loop comes to, up to a device -1. -/
def reached (db : KeyDb) (garbage : Registers) : List (Bool × Registers) :=
  (readings garbage db.rows).takeWhile fun x => x.2.device ≠ -1

def unreached (db : KeyDb) (garbage : Registers) : List (Bool × Registers) :=
  (readings garbage db.rows).dropWhile fun x => x.2.device ≠ -1

/-- What is stored for event file `f`, with whether it is an entry of its own (`true`)
or the one before it, taken again at a long comment. -/
def stored (db : KeyDb) (gszDeviceLine : Bytes) (garbage : Registers) (f : ℕ) :
    List (Bool × KeyEntry) :=
  ((db.reached garbage).filter fun x =>
    Wanted (db.matched gszDeviceLine) x.2 ∧ x.2.inputFile = (f : Int)).map fun x => (x.1, x.2.ke)

/-- The entries for event file `f` that are wanted but stand behind a device -1. -/
def lost (db : KeyDb) (gszDeviceLine : Bytes) (garbage : Registers) (f : ℕ) : List KeyEntry :=
  ((db.unreached garbage).filter fun x =>
    x.1 ∧ Wanted (db.matched gszDeviceLine) x.2 ∧ x.2.inputFile = (f : Int)).map (·.2.ke)

/-- What is taken again is for an event file, also where nothing was read before it. -/
def RepeatsInRange (db : KeyDb) (gszDeviceLine : Bytes) (garbage : Registers) : Prop :=
  ∀ x ∈ db.reached garbage, x.1 = false → Wanted (db.matched gszDeviceLine) x.2 →
    0 ≤ x.2.inputFile ∧ x.2.inputFile ≤ maxInputFileId

variable {db : KeyDb} {gszDeviceLine : Bytes} {garbage : Registers}

/-- The file numbers of the entries are in range. -/
theorem entries_range {r : Registers} (h : r ∈ db.entries) :
    0 ≤ r.inputFile ∧ r.inputFile ≤ maxInputFileId := by
  rcases List.mem_filterMap.mp h with ⟨row, -, hrow⟩
  cases row with
  | entry l hfile =>
    cases hrow
    exact hfile
  | note l => cases hrow
  | stop l hdevice => cases hrow

/-- The pieces are the lines. -/
theorem pieces_of_fits (h : db.Fits) : db.pieces = db.rows.map Row.text := by
  have hrowText : db.rowText = ((db.rows.map Row.line).map (·.text)).flatten := by
    rw [List.map_map]
    rfl
  have hfits : ∀ l ∈ db.rows.map Row.line, l.text.length ≤ 254 := by
    intro l hl
    obtain ⟨row, hrow, rfl⟩ := List.mem_map.mp hl
    exact h row.text (List.mem_append_right _ (List.mem_map_of_mem hrow))
  have hnewline : ∀ l ∈ (db.rows.map Row.line).dropLast, l.newline = true := by
    intro l hl
    have hrows : db.rows.map Row.line ≠ [] := by
      intro hnil
      rw [hnil] at hl
      cases hl
    refine db.newlines l ?_
    rw [List.dropLast_append_of_ne_nil hrows]
    exact List.mem_append_right _ hl
  have hread := fgetsLines_text (db.rows.map Row.line) [] db.rowText.length hfits hnewline
    fun hne => absurd rfl hne
  rw [List.append_nil, ← hrowText, List.map_map] at hread
  have hnone : fgetsLines 255 db.rowText.length [] = [] := by cases db.rowText.length <;> rfl
  unfold pieces
  rw [fgetsLines_fuel (by decide) (le_refl _) (Nat.le_add_left _ (db.rows.map Row.line).length),
    hread, hnone, List.append_nil]
  rfl

/-- In a database whose lines fit no device line is cut. -/
theorem devicesWhole_of_fits (h : db.Fits) : db.DevicesWhole where
  fit d hd := h d.text (List.mem_append_left _ (List.mem_map_of_mem hd))
  plain := by
    rw [pieces_of_fits h, List.forall_mem_map]
    intro row _
    cases row with
    | entry l hfile => exact l.take_text
    | note l => exact l.take_text
    | stop l hdevice => exact l.take_text

/-- A note reads as the line before it. -/
theorem repeatsLast_reached : RepeatsLast (db.reached garbage) := by
  have hchain := List.IsChain.prefix (isChain_readings true garbage db.rows).tail
    (List.takeWhile_prefix fun x => x.2.device ≠ -1)
  refine hchain.imp_of_mem_imp fun a b _ hb hab hrepeat => (hab hrepeat).resolve_right ?_
  simpa using List.mem_takeWhile_imp hb

theorem repeatsLast_stored (f : ℕ) : RepeatsLast (db.stored gszDeviceLine garbage f) :=
  (repeatsLast_reached.filter fun r =>
    Wanted (db.matched gszDeviceLine) r ∧ r.inputFile = (f : Int)).map Registers.ke

/-- To keep what is wanted and then what is for file `f` is to keep both at once. -/
theorem filterMap_filter_ite {α β : Type*} (l : List α) (p q : α → Prop) [DecidablePred p]
    [DecidablePred q] (g : α → β) :
    ((l.filter fun a => p a).filterMap fun a => if q a then some (g a) else none) =
      (l.filter fun a => p a ∧ q a).map g := by
  induction l with
  | nil => rfl
  | cons a l ih =>
    by_cases hp : p a
    · by_cases hq : q a <;> simp [hp, hq, ih]
    · simp [hp, ih]

variable (garbage) in
/-- The wanted entries stand in front of the device -1 or behind it. -/
theorem wanted_eq (f : ℕ) : db.wanted gszDeviceLine f =
    ((db.stored gszDeviceLine garbage f).filter (·.1)).map (·.2) ++
      db.lost gszDeviceLine garbage f := by
  have hsplit : readings garbage db.rows = db.reached garbage ++ db.unreached garbage :=
    List.takeWhile_append_dropWhile.symm
  have hentries : db.entries = ((readings garbage db.rows).filter (·.1)).map (·.2) :=
    (map_filter_readings garbage db.rows).symm
  unfold wanted stored lost
  rw [filterMap_filter_ite, hentries, hsplit]
  simp only [List.filter_append, List.map_append, List.filter_map, List.map_map, List.filter_filter]
  congr 2
  · refine List.filter_congr fun x _ => ?_
    simp [Bool.and_comm]
  · refine List.filter_congr fun x _ => ?_
    simp [Bool.and_comm]

/-- A row is what is stored under its number. -/
theorem rowOf_takenOf (f : ℕ) :
    rowOf (takenOf (db.matched gszDeviceLine) ((readings garbage db.rows).map (·.2))) f =
      (db.stored gszDeviceLine garbage f).map (·.2) := by
  unfold rowOf takenOf stored reached
  rw [List.takeWhile_map, List.filter_map, List.map_map, List.filterMap_map, List.map_map]
  exact filterMap_filter_ite _ (fun x : Bool × Registers => Wanted (db.matched gszDeviceLine) x.2)
    (fun x => x.2.inputFile = (f : Int)) fun x => x.2.ke

/-- Entries are for event files anyway. -/
theorem range_takenOf_iff :
    (∀ x ∈ takenOf (db.matched gszDeviceLine) ((readings garbage db.rows).map (·.2)),
      0 ≤ x.1 ∧ x.1 ≤ maxInputFileId) ↔ db.RepeatsInRange gszDeviceLine garbage := by
  unfold takenOf RepeatsInRange
  rw [List.takeWhile_map, List.filter_map, List.map_map, List.forall_mem_map]
  constructor
  · intro h x hx _ hwanted
    exact h x (List.mem_filter.mpr ⟨hx, decide_eq_true hwanted⟩)
  · intro h x hx
    obtain ⟨hreached, hwanted⟩ := List.mem_filter.mp hx
    cases hentry : x.1 with
    | false => exact h x hreached hentry (of_decide_eq_true hwanted)
    | true =>
      have hmem : x.2 ∈ db.entries := by
        have hreading : x ∈ readings garbage db.rows := List.takeWhile_subset _ hreached
        rw [entries, ← map_filter_readings garbage]
        exact List.mem_map_of_mem (List.mem_filter.mpr ⟨hreading, hentry⟩)
      exact entries_range hmem

end KeyDb

/-! ## Some lines -/

/-- A number of one digit. -/
def Numeral.digit (d : Fin 10) : Numeral where
  sign := []
  digits := [48 + UInt8.ofNat d]
  sign_cases := .inl rfl
  digits_ne := List.cons_ne_nil _ _
  digits_digit := by
    simp only [List.mem_singleton, forall_eq]
    revert d
    decide
  range := by
    revert d
    decide

/-- `1 f 1 5 1 2 1` -/
def agnosticLine (f : Fin 10) : NumberLine where
  body := [49, 32, 48 + UInt8.ofNat f, 32, 49, 32, 53, 32, 49, 32, 50, 32, 49]
  newline := true
  text_ne := .inr rfl
  clean := by
    have hfile : 48 + UInt8.ofNat f ≠ 0 ∧ 48 + UInt8.ofNat f ≠ 10 := by
      revert f
      decide
    simp only [List.forall_mem_cons]
    exact ⟨by decide, by decide, hfile, by decide, by decide, by decide, by decide, by decide,
      by decide, by decide, by decide, by decide, by decide, List.forall_mem_nil _⟩
  lead := []
  cells := [(.digit 1, [32]), (.digit f, [32]), (.digit 1, [32]), (.digit 5, [32]),
    (.digit 1, [32]), (.digit 2, [32]), (.digit 1, [])]
  body_eq := rfl
  seven := rfl
  lead_space := by simp
  gap_space := by simp [isSpace]
  gap_ne := by simp

def agnosticRow (f : Fin 10) : Row :=
  .entry (agnosticLine f) (by
    revert f
    decide)

/-- The entry for event file 1. -/
def firstRow : Row := agnosticRow 1

/-- `-1 0 0 0 0 0 0` -/
def endLine : NumberLine where
  body := [45, 49, 32, 48, 32, 48, 32, 48, 32, 48, 32, 48, 32, 48]
  newline := true
  text_ne := .inr rfl
  clean := by simp
  lead := []
  cells := [
    ({ Numeral.digit 1 with sign := [45], sign_cases := .inr (.inr rfl), range := by decide },
    [32]), (.digit 0, [32]), (.digit 0, [32]), (.digit 0, [32]), (.digit 0, [32]), (.digit 0, [32]),
    (.digit 0, [])]
  body_eq := rfl
  seven := rfl
  lead_space := by simp
  gap_space := by simp [isSpace]
  gap_ne := by simp

/-- `# keys` -/
def keysNote : NoteLine where
  body := [35, 32, 107, 101, 121, 115]
  newline := true
  text_ne := .inr rfl
  clean := by simp
  note := .inl rfl

/-! ## Exactness -/

theorem loadsExactly_iff_taken (db : KeyDb) (gszDeviceLine : Bytes)
    (gDeviceKeyArray : ℕ → DeviceKeyInfo) (garbage : Registers) :
    LoadsExactly db gszDeviceLine gDeviceKeyArray garbage ↔
      Agrees (taken gszDeviceLine (fgetsLines 255 db.text.length db.text)
        (.start gDeviceKeyArray garbage)) (db.wanted gszDeviceLine) ∧
        FlatRows.Apart maxKeyEntries (maxInputFileId + 1)
          fun f => (db.wanted gszDeviceLine f).length := by
  have hstores := readLines_eq gszDeviceLine (fgetsLines 255 db.text.length db.text)
    (.start gDeviceKeyArray garbage) FlatRows.empty
  rw [← storeAll_exact_iff, ← hstores]
  unfold LoadsExactly readDeviceKeyDB
  constructor
  · rintro ⟨s, t, hread, hexact⟩
    exact ⟨t, by rw [hread]; rfl, hexact⟩
  · rintro ⟨t, hmap, hexact⟩
    rcases Option.map_eq_some_iff.mp hmap with ⟨⟨s, t'⟩, hread, rfl⟩
    exact ⟨s, t', hread, hexact⟩

/-- The table is exact if and only if the rows are apart and the tested numbers that are
taken are the entries that are wanted, in each event file. Where every line fits, they are
unless some are taken again or lost; with both, it depends on whether these are alike. -/
theorem loadsExactly_iff (db : KeyDb) (gszDeviceLine : Bytes)
    (gDeviceKeyArray : ℕ → DeviceKeyInfo) (garbage : Registers) :
    (db.DevicesWhole → (LoadsExactly db gszDeviceLine gDeviceKeyArray garbage ↔
      Agrees (takenOf (db.matched gszDeviceLine) (scanned garbage db.pieces))
          (db.wanted gszDeviceLine) ∧
        FlatRows.Apart maxKeyEntries (maxInputFileId + 1)
          fun f => (db.wanted gszDeviceLine f).length)) ∧
    (db.Fits → (LoadsExactly db gszDeviceLine gDeviceKeyArray garbage ↔
      (db.RepeatsInRange gszDeviceLine garbage ∧ ∀ f ≤ maxInputFileId,
        MakesUp (db.stored gszDeviceLine garbage f) (db.lost gszDeviceLine garbage f)) ∧
        FlatRows.Apart maxKeyEntries (maxInputFileId + 1)
          fun f => (db.wanted gszDeviceLine f).length)) := by
  constructor
  · intro hwhole
    rw [loadsExactly_iff_taken, KeyDb.taken_text hwhole]
  · intro hfits
    rw [loadsExactly_iff_taken, KeyDb.taken_text (KeyDb.devicesWhole_of_fits hfits),
      KeyDb.pieces_of_fits hfits, ← map_snd_readings]
    refine and_congr_left fun _ => ?_
    unfold Agrees
    rw [KeyDb.range_takenOf_iff]
    refine and_congr_right fun _ => forall₂_congr fun f _ => ?_
    rw [KeyDb.rowOf_takenOf, KeyDb.wanted_eq garbage,
      (KeyDb.repeatsLast_stored f).map_snd_eq_iff]

/-- An entry, which is taken again at the comment behind it, and once more behind the end
of the database. -/
def madeUp : KeyDb where
  devices := []
  rows := [firstRow, .note keysNote, .stop endLine (by decide), firstRow]
  newlines := by decide

/-- The entry that is lost is made up for by the one that is taken again. -/
theorem loadsExactly_iff_madeUp :
    LoadsExactly madeUp [] (fun _ => ⟨[], 0⟩) ⟨0, 0, ⟨0, 0, 0, 0, 0⟩⟩ := by
  have hlength : ∀ f < maxInputFileId + 1,
      (madeUp.wanted [] f).length = if f = 1 then 2 else 0 := by
    decide +kernel
  refine ((loadsExactly_iff madeUp [] _ _).2 (by unfold KeyDb.Fits; decide)).mpr ⟨⟨?_, ?_⟩, ?_, ?_⟩
  · unfold KeyDb.RepeatsInRange
    decide +kernel
  · decide +kernel
  · intro f hf
    rw [hlength f hf]
    split
    · subst f
      decide
    · unfold maxInputFileId maxKeyEntries at *
      omega
  · intro f g hfg hg hpos
    rw [hlength f (hfg.trans hg)]
    rw [hlength g hg] at hpos
    unfold maxKeyEntries
    split at hpos
    · split <;> omega
    · cases hpos

/-- An entry for event file 1, and sixteen for event file 0. -/
def sixteen : KeyDb where
  devices := []
  rows := agnosticRow 1 :: List.replicate 16 (agnosticRow 0)
  newlines := by decide

theorem not_loadsExactly_sixteen : ¬ ∀ (db : KeyDb) (gszDeviceLine : Bytes)
    (gDeviceKeyArray : ℕ → DeviceKeyInfo) (garbage : Registers),
    LoadsExactly db gszDeviceLine gDeviceKeyArray garbage := by
  intro hloads
  obtain ⟨s, t, hread, hexact⟩ := hloads sixteen [] (fun _ => ⟨[], 0⟩) ⟨0, 0, ⟨0, 0, 0, 0, 0⟩⟩
  have hcell : (readDeviceKeyDB [] (fun _ => ⟨[], 0⟩) ⟨0, 0, ⟨0, 0, 0, 0, 0⟩⟩ sixteen.text).map
      (fun x => x.2.cells 15) = some (some (0, ⟨1, 5, 1, 2, 1⟩)) := by
    decide +kernel
  rw [hread] at hcell
  have hown : t.cells 15 = some (1, ⟨1, 5, 1, 2, 1⟩) :=
    hexact.cells 1 (by decide) 0 _ (by decide +kernel)
  rw [Option.map_some, hown] at hcell
  cases hcell

end MobiPerf.Capture
