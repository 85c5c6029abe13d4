import Mathlib.Data.List.DropRight
import MobiPerf.Lib.Rounding
import MobiPerf.Lib.Tokens
import MobiPerf.Scheduler.Task

/-!
# Measurements.Text — the texts measurements read and write

What `String.split`, the number parsers and `String.format` make of a text. A
text is a list of characters where it is taken apart.

* `parseInt_toString`: an `int` is read back from its decimal text;
* `readDecimal_decimal`: digits, with a point and more digits behind or not, are
  a floating-point number;
* `readDecimal_format`: so is a formatted number, where the locale writes a
  point and Latin digits.
-/

namespace MobiPerf.Measurements

open Lib Scheduler

/-- The value of an `int` expression: wrapped to 32 bits. -/
def toInt (x : ℤ) : ℤ := Int.bmod x (2 ^ 32)

/-- An `int` is not changed by the cast. -/
theorem toInt_eq {x : ℤ} (hlo : -2 ^ 31 ≤ x) (hhi : x < 2 ^ 31) : toInt x = x := by
  unfold toInt
  rw [Int.bmod_def]
  split <;> omega

/-- The cast gives an `int`. -/
theorem toInt_mem (x : ℤ) : -2 ^ 31 ≤ toInt x ∧ toInt x < 2 ^ 31 := by
  unfold toInt
  rw [Int.bmod_def]
  split <;> omega

/-- A sum may be cast at its end. -/
theorem toInt_toInt_add (x y : ℤ) : toInt (toInt x + y) = toInt (x + y) := Int.bmod_add_bmod

/-! ## Pieces of a text -/

/-- What `split` keeps of the pieces between the matches: the last ones go while
they are empty, unless nothing matched. -/
def keptPieces (pieces : List (List Char)) : List String :=
  (if pieces.length = 1 then pieces else pieces.rdropWhile (· = [])).map String.ofList

/-- `s.split(c)` for a single character. -/
def split (c : Char) (s : String) : List String := keptPieces (s.toList.splitOn c)

/-- Nothing is dropped behind a piece that is not empty. -/
theorem rdropWhile_of_ne_nil {texts : List String} (hempty : ∀ t ∈ texts, t ≠ "") :
    (texts.map String.toList).rdropWhile (· = []) = texts.map String.toList := by
  rw [List.rdropWhile_eq_self_iff]
  intro hl
  have hlast := List.getLast_mem hl
  obtain ⟨t, ht, heq⟩ := List.mem_map.mp hlast
  rw [← heq]
  simpa using hempty t ht

/-- Pieces that are not empty are kept. -/
theorem keptPieces_of_ne_nil {texts : List String} (hempty : ∀ t ∈ texts, t ≠ "") :
    keptPieces (texts.map String.toList) = texts := by
  unfold keptPieces
  rw [rdropWhile_of_ne_nil hempty, ite_self, List.map_map]
  simp [Function.comp_def]

/-- An empty piece at the end, behind a separator, goes. -/
theorem keptPieces_concat_nil {texts : List String} (hne : texts ≠ [])
    (hempty : ∀ t ∈ texts, t ≠ "") : keptPieces (texts.map String.toList ++ [[]]) = texts := by
  have hlength : (texts.map String.toList ++ [[]]).length ≠ 1 := by
    simpa using hne
  unfold keptPieces
  rw [if_neg hlength, List.rdropWhile_concat_pos _ _ _ (by simp), rdropWhile_of_ne_nil hempty,
    List.map_map]
  simp [Function.comp_def]

/-- Of the pieces of which the last alone may be empty, that one goes then. -/
theorem keptPieces_concat {front : List String} {piece : List Char} (hne : front ≠ [] ∨ piece ≠ [])
    (hempty : ∀ t ∈ front, t ≠ "") : keptPieces (front.map String.toList ++ [piece]) =
      front ++ if String.ofList piece = "" then [] else [String.ofList piece] := by
  split
  · rename_i hblank
    have hnil : piece = [] := by simpa using hblank
    rw [hnil, keptPieces_concat_nil (hne.resolve_right fun h => h hnil) hempty, List.append_nil]
  · rename_i hpiece
    have hall : ∀ t ∈ front ++ [String.ofList piece], t ≠ "" := by
      intro t ht
      rcases List.mem_append.mp ht with ht | ht
      · exact hempty t ht
      · rw [List.mem_singleton.mp ht]
        exact hpiece
    have hkept := keptPieces_of_ne_nil hall
    rwa [List.map_append, List.map_singleton, String.toList_ofList] at hkept

/-- The pieces of what a list starts with are pieces of the list, and the last one
is what a piece starts with. -/
theorem splitOn_of_prefix {α : Type*} [DecidableEq α] {a : α} {p s : List α} (h : p <+: s) :
    ∃ front piece whole back, p.splitOn a = front ++ [piece] ∧
      s.splitOn a = front ++ whole :: back ∧ piece <+: whole := by
  induction p generalizing s with
  | nil =>
      rcases hs : s.splitOn a with _ | ⟨whole, back⟩
      · simp at hs
      · exact ⟨[], [], whole, back, rfl, rfl, List.nil_prefix⟩
  | cons c p ih =>
      rcases s with _ | ⟨c', s⟩
      · simp at h
      · obtain ⟨rfl, hp⟩ := List.cons_prefix_cons.mp h
        obtain ⟨front, piece, whole, back, hpiece, hwhole, hstarts⟩ := ih hp
        rw [List.splitOn_eq_splitOnP] at hpiece hwhole
        rw [List.splitOn_eq_splitOnP, List.splitOn_eq_splitOnP,
          List.splitOnP_cons_eq_if_modifyHead, List.splitOnP_cons_eq_if_modifyHead, hpiece, hwhole]
        split
        · -- a separator
          exact ⟨[] :: front, piece, whole, back, rfl, rfl, hstarts⟩
        · cases front with
          | nil => exact ⟨[], c :: piece, c :: whole, back, rfl, rfl,
              List.cons_prefix_cons.mpr ⟨rfl, hstarts⟩⟩
          | cons first front =>
              exact ⟨(c :: first) :: front, piece, whole, back, rfl, rfl, hstarts⟩

/-- Texts without the separator, none of them empty, are read back from their
join. -/
theorem split_intercalate {c : Char} {texts : List String} (hne : texts ≠ [])
    (hc : ∀ t ∈ texts, c ∉ t.toList) (hempty : ∀ t ∈ texts, t ≠ "") :
    split c (String.ofList (List.intercalate [c] (texts.map String.toList))) = texts := by
  have hpieces : (List.intercalate [c] (texts.map String.toList)).splitOn c =
      texts.map String.toList := by
    apply List.splitOn_intercalate
    · intro l hl
      obtain ⟨t, ht, rfl⟩ := List.mem_map.mp hl
      exact hc t ht
    · simpa using hne
  unfold split
  rw [String.toList_ofList, hpieces, keptPieces_of_ne_nil hempty]

/-- The pieces between carriage return and line feed pairs; `piece` is what the
current one has so far, last character first. -/
def linePieces : List Char → List Char → List (List Char)
  | piece, '\r' :: '\n' :: s => piece.reverse :: linePieces [] s
  | piece, c :: s => linePieces (c :: piece) s
  | piece, [] => [piece.reverse]

/-- `s.split("\r\n")`. -/
def splitLines (s : String) : List String := keptPieces (linePieces [] s.toList)

/-- A text without a carriage return is the first piece of what it is put before. -/
theorem linePieces_append {text : List Char} (h : '\r' ∉ text) (piece s : List Char) :
    linePieces piece (text ++ s) = linePieces (text.reverse ++ piece) s := by
  induction text generalizing piece with
  | nil => rfl
  | cons c text ih =>
      rw [List.mem_cons, not_or] at h
      obtain ⟨hc, htext⟩ := h
      rw [List.cons_append, linePieces, ih htext, List.reverse_cons, List.append_assoc,
        List.singleton_append]
      intro _ hreturn
      exact absurd hreturn.symm hc

/-- Lines that were joined are told apart again. -/
theorem linePieces_intercalate {texts : List (List Char)} (hne : texts ≠ [])
    (h : ∀ text ∈ texts, '\r' ∉ text) :
    linePieces [] (List.intercalate ['\r', '\n'] texts) = texts := by
  induction texts with
  | nil => exact absurd rfl hne
  | cons text texts ih =>
      have htext := h text List.mem_cons_self
      cases texts with
      | nil =>
          have hlast := linePieces_append htext [] []
          rw [List.append_nil, List.append_nil, linePieces, List.reverse_reverse] at hlast
          rw [List.intercalate_singleton]
          exact hlast
      | cons next texts =>
          rw [List.intercalate_cons_cons, List.append_assoc, linePieces_append htext,
            List.append_nil, List.cons_append, List.cons_append, List.nil_append, linePieces,
            List.reverse_reverse,
            ih (List.cons_ne_nil _ _) fun t ht => h t (List.mem_cons_of_mem text ht)]

/-- Lines without a carriage return, none of them empty, are read back from their
join. -/
theorem splitLines_intercalate {texts : List String} (hne : texts ≠ [])
    (hreturn : ∀ t ∈ texts, '\r' ∉ t.toList) (hempty : ∀ t ∈ texts, t ≠ "") :
    splitLines (String.ofList (List.intercalate ['\r', '\n'] (texts.map String.toList))) =
      texts := by
  have hnotReturn : ∀ l ∈ texts.map String.toList, '\r' ∉ l := by simpa using hreturn
  have hpieces := linePieces_intercalate (by simpa using hne) hnotReturn
  unfold splitLines
  rw [String.toList_ofList, hpieces, keptPieces_of_ne_nil hempty]

/-- `s.trim().length() > 0`. -/
def hasText (s : String) : Bool := s.toList.any (' ' < ·)

/-- `s.startsWith(start)`. -/
def startsWith (start s : String) : Bool := start.toList.isPrefixOf s.toList

/-- `s.contains(word)`. -/
def contains (word s : String) : Bool := s.toList.tails.any word.toList.isPrefixOf

/-! ## Base64 -/

/-- The letter for six bits. -/
def base64Letter (n : ℕ) : Char :=
  if n < 26 then Char.ofNat (65 + n)
  else if n < 52 then Char.ofNat (71 + n)
  else if n < 62 then Char.ofNat (n - 4)
  else if n = 62 then '+' else '/'

/-- Four letters for three bytes; the last group is padded. -/
def base64Letters : List UInt8 → List Char
  | a :: b :: c :: bytes =>
    let n := a.toNat * 2 ^ 16 + b.toNat * 2 ^ 8 + c.toNat
    (digits 64 4 n).map base64Letter ++ base64Letters bytes
  | [a, b] => (digits 64 3 (a.toNat * 2 ^ 10 + b.toNat * 4)).map base64Letter ++ ['=']
  | [a] => (digits 64 2 (a.toNat * 2 ^ 4)).map base64Letter ++ ['=', '=']
  | [] => []

/-- A line feed after every 76 letters and at the end; `column` letters are on
the line already. -/
def foldLines (column : ℕ) : List Char → List Char
  | [] => if column = 0 then [] else ['\n']
  | c :: cs => if column = 75 then c :: '\n' :: foldLines 0 cs else c :: foldLines (column + 1) cs

/-- `Base64.encodeToString(bytes, Base64.DEFAULT)`. -/
def base64 (bytes : List UInt8) : String := String.ofList (foldLines 0 (base64Letters bytes))

/-! ## Numbers -/

def hexDigit (c : Char) : Option ℕ :=
  if c.isDigit then some (c.toNat - 48)
  else if 'a' ≤ c ∧ c ≤ 'f' then some (c.toNat - 87)
  else if 'A' ≤ c ∧ c ≤ 'F' then some (c.toNat - 55)
  else none

/-- The value of digits to the base `b`; a letter that is no digit counts as
zero. -/
def digitsValue (b : ℕ) (ds : List Char) : ℕ := ds.foldl (fun r d => r * b + (hexDigit d).getD 0) 0

/-- The sign at the start of a text: whether it is a minus, and what follows. -/
def readSign : List Char → Bool × List Char
  | '-' :: s => (true, s)
  | '+' :: s => (false, s)
  | s => (false, s)

/-- `Integer.parseInt(s, 16)`. -/
def parseHex (s : List Char) : Option ℤ := parseRadix 16 s

/-- The exponent behind the letter `marker`, when there is one, and what follows
it; `none` when the letter has no digits behind it. -/
def readExponent (marker : Char) : List Char → Option (Option ℤ × List Char)
  | [] => some (none, [])
  | c :: s =>
    if c.toLower = marker then
      let (negative, s) := readSign s
      let ds := s.takeWhile Char.isDigit
      let e : ℤ := digitsValue 10 ds
      if ds = [] then none
      else some (some (if negative then -e else e), s.dropWhile Char.isDigit)
    else some (none, c :: s)

/-- The digits at the start of a text, those behind a point, and the rest. -/
def readDigits (isDigit : Char → Bool) (s : List Char) : List Char × List Char × List Char :=
  let whole := s.takeWhile isDigit
  match s.dropWhile isDigit with
  | '.' :: rest => (whole, rest.takeWhile isDigit, rest.dropWhile isDigit)
  | rest => (whole, [], rest)

/-- What may stand behind a number: nothing, or the letter of its type. -/
def endsNumber (rest : List Char) : Bool :=
  rest = [] || rest.map Char.toLower = ['f'] || rest.map Char.toLower = ['d']

/-- A decimal number without sign. -/
def readDecimalNumber (s : List Char) : Option ℚ :=
  let (whole, fraction, rest) := readDigits Char.isDigit s
  if whole ++ fraction = [] then none
  else
    match readExponent 'e' rest with
    | none => none
    | some (e, rest) =>
      if endsNumber rest then
        some (digitsValue 10 (whole ++ fraction) * 10 ^ (e.getD 0 - fraction.length))
      else none

/-- A hexadecimal number without sign, behind its `0x`: the exponent is not
optional. -/
def readHexNumber (s : List Char) : Option ℚ :=
  let (whole, fraction, rest) := readDigits (fun c => (hexDigit c).isSome) s
  if whole ++ fraction = [] then none
  else
    match readExponent 'p' rest with
    | some (some e, rest) =>
      if endsNumber rest then
        some (digitsValue 16 (whole ++ fraction) * 2 ^ (e - 4 * fraction.length))
      else none
    | _ => none

/-- The number a text without sign spells. -/
def readUnsigned : List Char → Option Value
  | ['N', 'a', 'N'] => some .nan
  | ['I', 'n', 'f', 'i', 'n', 'i', 't', 'y'] => some (.infinite false)
  | '0' :: 'x' :: s => (readHexNumber s).map .finite
  | '0' :: 'X' :: s => (readHexNumber s).map .finite
  | s => (readDecimalNumber s).map .finite

/-- The number a text spells, before it is rounded: what
`Double.parseDouble` and `Float.parseFloat` accept, and `none` for their
`NumberFormatException`. White space around it is dropped. -/
def readDecimal (s : String) : Option Value :=
  let trimmed := (s.toList.dropWhile (· ≤ ' ')).rdropWhile (· ≤ ' ')
  let (negative, s) := readSign trimmed
  (readUnsigned s).map fun x => if negative then x.neg else x

/-! ### Decimal texts -/

/-- A digit is no white space. -/
theorem not_space_of_isDigit {c : Char} (h : c.isDigit) : ¬ c ≤ ' ' := by
  intro hle
  have hle' : c.toNat ≤ 32 := hle
  have h48 : 48 ≤ c.toNat := (Char.isDigit_iff_toNat.mp h).1
  omega

section Decimal

variable {whole tail : List Char}

/-- What follows the whole part of a decimal text: nothing, or a point and more
digits. -/
def IsFraction (tail : List Char) : Prop :=
  tail = [] ∨ ∃ fraction, tail = '.' :: fraction ∧ ∀ c ∈ fraction, c.isDigit

/-- A fraction has a point and digits. -/
theorem IsFraction.mem {c : Char} (h : IsFraction tail) (hc : c ∈ tail) : c = '.' ∨ c.isDigit := by
  rcases h with rfl | ⟨fraction, rfl, hdigits⟩
  · cases hc
  · rcases List.mem_cons.mp hc with rfl | hc
    · exact Or.inl rfl
    · exact Or.inr (hdigits c hc)

/-- The digits before the point are read, and then the fraction. -/
theorem readDigits_decimal (hw : ∀ c ∈ whole, c.isDigit) (ht : IsFraction tail) :
    (readDigits Char.isDigit (whole ++ tail)).1 = whole ∧
      (readDigits Char.isDigit (whole ++ tail)).2.2 = [] := by
  have htake : (whole ++ tail).takeWhile Char.isDigit = whole := by
    rw [List.takeWhile_append_of_pos hw]
    rcases ht with rfl | ⟨fraction, rfl, -⟩
    · simp
    · simp [Char.isDigit]
  have hdrop : (whole ++ tail).dropWhile Char.isDigit = tail := by
    rw [List.dropWhile_append_of_pos hw]
    rcases ht with rfl | ⟨fraction, rfl, -⟩
    · simp
    · simp [Char.isDigit]
  unfold readDigits
  rw [htake, hdrop]
  rcases ht with rfl | ⟨fraction, rfl, hf⟩
  · exact ⟨rfl, rfl⟩
  · exact ⟨rfl, List.dropWhile_eq_nil_iff.mpr hf⟩

/-- Digits and a fraction are a number. -/
theorem readDecimalNumber_isSome (hne : whole ≠ []) (hw : ∀ c ∈ whole, c.isDigit)
    (ht : IsFraction tail) : (readDecimalNumber (whole ++ tail)).isSome := by
  obtain ⟨hwhole, hrest⟩ := readDigits_decimal hw ht
  unfold readDecimalNumber
  generalize readDigits Char.isDigit (whole ++ tail) = parts at *
  rcases parts with ⟨w, fraction, rest⟩
  cases hwhole
  cases hrest
  simp [hne, readExponent, endsNumber]

/-- So they are without a sign. -/
theorem readUnsigned_isSome (hne : whole ≠ []) (hw : ∀ c ∈ whole, c.isDigit)
    (ht : IsFraction tail) : (readUnsigned (whole ++ tail)).isSome := by
  have hnumber := readDecimalNumber_isSome hne hw ht
  have hchars : ∀ c ∈ whole ++ tail, c = '.' ∨ c.isDigit := by
    intro c hc
    rcases List.mem_append.mp hc with hc | hc
    · exact Or.inr (hw c hc)
    · exact ht.mem hc
  -- no letter stands in such a text
  generalize whole ++ tail = s at hnumber hchars
  unfold readUnsigned
  split
  · exact absurd (hchars 'N' (by simp)) (by decide)
  · exact absurd (hchars 'I' (by simp)) (by decide)
  · exact absurd (hchars 'x' (by simp)) (by decide)
  · exact absurd (hchars 'X' (by simp)) (by decide)
  · simpa using hnumber

/-- A text without white space is not trimmed. -/
theorem trimmed_of_forall_not_le {s : List Char} (h : ∀ c ∈ s, ¬ c ≤ ' ') :
    (s.dropWhile (· ≤ ' ')).rdropWhile (· ≤ ' ') = s := by
  have hdrop : s.dropWhile (· ≤ ' ') = s := by
    rw [List.dropWhile_eq_self_iff]
    intro hpos
    simpa using h _ (List.getElem_mem hpos)
  rw [hdrop, List.rdropWhile_eq_self_iff]
  intro hs
  simpa using h _ (List.getLast_mem hs)

/-- A sign is taken off, and a digit is none. -/
theorem readSign_append {sign : List Char} (hsign : sign = [] ∨ sign = ['-']) (hne : whole ≠ [])
    (hw : ∀ c ∈ whole, c.isDigit) : (readSign (sign ++ (whole ++ tail))).2 = whole ++ tail := by
  rcases hsign with rfl | rfl
  · rcases whole with _ | ⟨c, whole⟩
    · exact absurd rfl hne
    · have hc := hw c List.mem_cons_self
      show (readSign (c :: (whole ++ tail))).2 = _
      unfold readSign
      split
      · rename_i h
        cases h
        exact absurd hc (by decide)
      · rename_i h
        cases h
        exact absurd hc (by decide)
      · rfl
  · rfl

/-- Digits, with a fraction or without, are a number, and so they are behind a
minus. -/
theorem readDecimal_isSome {sign : List Char} (hsign : sign = [] ∨ sign = ['-'])
    (hne : whole ≠ []) (hw : ∀ c ∈ whole, c.isDigit) (ht : IsFraction tail) :
    (readDecimal (String.ofList (sign ++ (whole ++ tail)))).isSome := by
  have hblank : ∀ c ∈ sign ++ (whole ++ tail), ¬ c ≤ ' ' := by
    intro c hc
    rcases List.mem_append.mp hc with hc | hc
    · rcases hsign with rfl | rfl
      · cases hc
      · rw [List.mem_singleton.mp hc]
        decide
    · rcases List.mem_append.mp hc with hc | hc
      · exact not_space_of_isDigit (hw c hc)
      · rcases ht.mem hc with rfl | hc
        · decide
        · exact not_space_of_isDigit hc
  have hnumber := readUnsigned_isSome hne hw ht
  unfold readDecimal
  rw [String.toList_ofList, trimmed_of_forall_not_le hblank]
  simpa [readSign_append hsign hne hw] using hnumber

end Decimal

/-! ### Whole numbers -/

/-- An ASCII digit to any base above nine. -/
theorem charDigit_of_isDigit {radix : ℕ} {c : Char} (hradix : 10 ≤ radix) (hc : c.isDigit) :
    charDigit radix c = some (c.toNat - 48) := by
  have h57 : c.toNat ≤ 57 := (Char.isDigit_iff_toNat.mp hc).2
  simp only [charDigit, if_pos hc]
  exact Option.filter_some_pos (decide_eq_true (by omega))

/-- A digit is less than the radix. -/
theorem charDigit_lt {radix n : ℕ} {c : Char} (h : charDigit radix c = some n) : n < radix :=
  of_decide_eq_true (Option.filter_eq_some_iff.mp h).2

/-- A number of `n` digits is less than the radix to the `n`. -/
theorem radixValue_lt {radix : ℕ} (hradix : 0 < radix) (ds : List Char) :
    radixValue radix ds < radix ^ ds.length := by
  have hfold : ∀ r, ds.foldl (fun r d => r * radix + (charDigit radix d).getD 0) r <
      (r + 1) * radix ^ ds.length := by
    induction ds with
    | nil =>
        intro r
        rw [List.foldl_nil, List.length_nil, Nat.pow_zero, Nat.mul_one]
        exact Nat.lt_succ_self r
    | cons d ds ih =>
        intro r
        have hd : (charDigit radix d).getD 0 < radix := by
          cases hdigit : charDigit radix d with
          | none => exact hradix
          | some n => exact charDigit_lt hdigit
        rw [List.foldl_cons, List.length_cons, Nat.pow_succ']
        calc _ < (r * radix + (charDigit radix d).getD 0 + 1) * radix ^ ds.length := ih _
          _ ≤ ((r + 1) * radix) * radix ^ ds.length := Nat.mul_le_mul_right _ (by
              rw [Nat.succ_mul]
              omega)
          _ = (r + 1) * (radix * radix ^ ds.length) := Nat.mul_assoc _ _ _
  simpa [radixValue] using hfold 0

/-- In the radix 10 the value is Lean's. -/
theorem radixValue_of_isDigit {ds : List Char} (hds : ∀ d ∈ ds, d.isDigit) :
    radixValue 10 ds = Nat.ofDigitChars 10 ds 0 := by
  rw [Nat.ofDigitChars_eq_foldl]
  refine List.foldl_ext _ _ _ fun r d hd => ?_
  rw [charDigit_of_isDigit (by decide) (hds d hd), Option.getD_some, Nat.mul_comm]
  rfl

/-- So the digits of a number have its value. -/
theorem radixValue_toDigits (n : ℕ) : radixValue 10 (Nat.toDigits 10 n) = n := by
  rw [radixValue_of_isDigit fun d hd => Nat.isDigit_of_mem_toDigits (by decide) (by decide) hd]
  exact Nat.ofDigitChars_ten_toDigits

/-- A text of digits has no sign. -/
theorem parseRadix_of_digits {radix : ℕ} {ds : List Char} (hne : ds ≠ [])
    (hall : ds.all fun d => (charDigit radix d).isSome) :
    parseRadix radix ds =
      (some (radixValue radix ds : ℤ)).filter fun n => -2 ^ 31 ≤ n ∧ n < 2 ^ 31 := by
  have hminus : charDigit radix '-' = none := rfl
  have hplus : charDigit radix '+' = none := rfl
  unfold parseRadix
  split
  · rw [List.all_cons, hminus] at hall
    cases hall
  · rw [List.all_cons, hplus] at hall
    cases hall
  · simp [hne, hall]

theorem all_charDigit_toDigits (n : ℕ) :
    (Nat.toDigits 10 n).all fun d => (charDigit 10 d).isSome := by
  rw [List.all_eq_true]
  intro c hc
  have hdigit := Nat.isDigit_of_mem_toDigits (by decide) (by decide) hc
  rw [charDigit_of_isDigit (by decide) hdigit]
  rfl

/-- A number with a minus sign is read when it is an `int`. -/
theorem parseInt_of_sign {s : String} {n : ℕ}
    (hs : s.toList = '-' :: Nat.toDigits 10 n) :
    parseInt s = (some (-(n : ℤ))).filter fun n => -2 ^ 31 ≤ n ∧ n < 2 ^ 31 := by
  have hall := all_charDigit_toDigits n
  unfold parseInt parseRadix
  rw [hs]
  simp only [hall, radixValue_toDigits]
  simp

/-- An `int` is read back from its decimal text, and the text of a larger number
is none. -/
theorem parseInt_toString (n : ℤ) :
    parseInt (toString n) = if -2 ^ 31 ≤ n ∧ n < 2 ^ 31 then some n else none := by
  have hfilter : ∀ m : ℤ, ((some m).filter fun n => -2 ^ 31 ≤ n ∧ n < 2 ^ 31) =
      if -2 ^ 31 ≤ m ∧ m < 2 ^ 31 then some m else none := by
    intro m
    by_cases h : -2 ^ 31 ≤ m ∧ m < 2 ^ 31
    · rw [if_pos h, Option.filter_some_pos (by simpa using h)]
    · rw [if_neg h, Option.filter_some_neg (by simpa using h)]
  rcases n with m | m
  · rw [← hfilter]
    have hs : (toString (Int.ofNat m)).toList = Nat.toDigits 10 m := by
      show (Nat.repr m).toList = _
      exact Nat.toList_repr
    rw [parseInt, hs, parseRadix_of_digits Nat.toDigits_ne_nil (all_charDigit_toDigits m),
      radixValue_toDigits]
    rfl
  · have hs : (toString (Int.negSucc m)).toList = '-' :: Nat.toDigits 10 (m + 1) := by
      show ("-" ++ Nat.repr (m + 1)).toList = _
      rw [String.toList_append, Nat.toList_repr]
      rfl
    have hn : Int.negSucc m = -((m + 1 : ℕ) : ℤ) := Int.negSucc_eq m
    rw [parseInt_of_sign hs, hfilter, hn]

/-! ### Formatted numbers -/

/-- What a locale writes a number with. -/
structure Locale where
  digit : ℕ → Char
  decimalSeparator : Char

/-- `%.nf` of a value, with `n` places, rounded half up. -/
def Locale.format (L : Locale) (places : ℕ) : Value → String
  | .nan => "NaN"
  | .infinite negative => if negative then "-Infinity" else "Infinity"
  | .finite q =>
    let n := ⌊|q| * 10 ^ places + 1 / 2⌋₊
    let whole := (Nat.toDigits 10 (n / 10 ^ places)).map fun c => L.digit (c.toNat - 48)
    let fraction := (digits 10 places n).map L.digit
    String.ofList ((if q < 0 then ['-'] else []) ++ whole ++ L.decimalSeparator :: fraction)

/-- A locale that writes Latin digits and a point. -/
def Locale.latin : Locale := ⟨Nat.digitChar, '.'⟩

/-- A digit's character is a digit. -/
theorem isDigit_digitChar {n : ℕ} (h : n < 10) : (Nat.digitChar n).isDigit := by
  rw [Nat.isDigit_digitChar, decide_eq_true_eq]
  exact h

/-- The digits of a natural number, written again. -/
theorem isDigit_of_mem_digits {n : ℕ} {c : Char}
    (hc : c ∈ (Nat.toDigits 10 n).map fun d => Locale.latin.digit (d.toNat - 48)) : c.isDigit := by
  obtain ⟨d, hd, rfl⟩ := List.mem_map.mp hc
  have hdigit := Nat.isDigit_of_mem_toDigits (by decide) (by decide) hd
  have h57 : d.toNat ≤ 57 := (Char.isDigit_iff_toNat.mp hdigit).2
  exact isDigit_digitChar (by omega)

/-- So are those of a formatted fraction. -/
theorem isDigit_of_mem_fraction {places n : ℕ} {c : Char}
    (hc : c ∈ (digits 10 places n).map Locale.latin.digit) : c.isDigit := by
  obtain ⟨d, hd, rfl⟩ := List.mem_map.mp hc
  exact isDigit_digitChar (digits_lt (by decide) hd)

/-- What the Latin locale formats can be read. -/
theorem readDecimal_format (places : ℕ) (x : Value) :
    (readDecimal (Locale.latin.format places x)).isSome := by
  rcases x with _ | negative | q
  · show (readDecimal "NaN").isSome
    decide +kernel
  · cases negative
    · show (readDecimal "Infinity").isSome
      decide +kernel
    · show (readDecimal "-Infinity").isSome
      decide +kernel
  · have hsign : (if q < 0 then ['-'] else []) = [] ∨ (if q < 0 then ['-'] else []) = ['-'] := by
      split
      · exact Or.inr rfl
      · exact Or.inl rfl
    show (readDecimal (String.ofList (_ ++ _ ++ _ :: _))).isSome
    rw [List.append_assoc]
    apply readDecimal_isSome hsign
    · simp
    · intro c hc
      exact isDigit_of_mem_digits hc
    · exact Or.inr ⟨_, rfl, fun c hc => isDigit_of_mem_fraction hc⟩

/-- The letters of a formatted number. -/
theorem mem_format_finite {places : ℕ} {q : ℚ} {c : Char}
    (hc : c ∈ (Locale.latin.format places (.finite q)).toList) : c.isDigit ∨ c = '.' ∨ c = '-' := by
  have hchars : (Locale.latin.format places (.finite q)).toList = _ := String.toList_ofList
  rw [hchars] at hc
  rcases List.mem_append.mp hc with hc | hc
  · rcases List.mem_append.mp hc with hc | hc
    · split at hc
      · exact Or.inr (Or.inr (List.mem_singleton.mp hc))
      · cases hc
    · exact Or.inl (isDigit_of_mem_digits hc)
  · rcases List.mem_cons.mp hc with hc | hc
    · exact Or.inr (Or.inl hc)
    · exact Or.inl (isDigit_of_mem_fraction hc)

theorem comma_notMem_format (places : ℕ) (q : ℚ) :
    ',' ∉ (Locale.latin.format places (.finite q)).toList := by
  intro hmem
  rcases mem_format_finite hmem with hdigit | hpoint | hminus
  · exact absurd hdigit (by decide)
  · exact absurd hpoint (by decide)
  · exact absurd hminus (by decide)

end MobiPerf.Measurements
