import Mathlib.Data.List.Induction
import Mathlib.Data.List.TakeWhile
import MobiPerf.Lib.Tokens
import MobiPerf.SocketProc.ProcFs

/-!
# SocketProc.NetFormat — the kernel's format of a socket table

What the kernel writes into a file of `/proc/net` and what `ReadConnections`
makes of it. A `NetFile` is a header line and lines of blank-separated fields:
a `SocketLine` has the two endpoints and the inode where the kernel puts them, a
`BrokenLine` has less than ten fields. Neither carries more than the format
fixes: the blanks and all other fields are arbitrary.

Reading undoes the formatting, line by line, as long as each line is read with
room in `conns`: `readConnections_netFile_iff`. There is no check of that room,
so a file of 513 sockets is written past the array
(`readConnections_overfull`).
-/

namespace MobiPerf.SocketProc

/-! ## Numbers as the kernel prints them -/

/-- The character of an upper-case hexadecimal digit. -/
def hexDigit (d : ℕ) : BYTE := UInt8.ofNat (if d < 10 then 48 + d else 55 + d)

/-- `%0<k>X`. -/
def hexText (k n : ℕ) : Bytes := (Lib.digits 16 k n).map hexDigit

/-- `%lu`. -/
def decimal (n : ℕ) : Bytes := (Nat.toDigits 10 n).map fun c => UInt8.ofNat c.toNat

/-- An address with its port. The words of the address before the last are none
(IPv4) or three (IPv6). -/
structure Endpoint where
  upper : List DWORD
  word : DWORD
  port : WORD
  length_upper : upper.length = 0 ∨ upper.length = 3

/-- The digits of the address, word by word. -/
def Endpoint.addr (e : Endpoint) : Bytes :=
  (e.upper.flatMap fun w => hexText 8 w.toNat) ++ hexText 8 e.word.toNat

/-- The field of an endpoint: 8 or 32 digits, a colon, 4 digits. -/
def Endpoint.text (e : Endpoint) : Bytes := e.addr ++ 58 :: hexText 4 e.port.toNat

/-- A hexadecimal digit in the sense of `Hex2Dec`. -/
def IsHex (c : BYTE) : Prop := (48 ≤ c ∧ c ≤ 57) ∨ (65 ≤ c ∧ c ≤ 70)

/-- A hexadecimal digit is one. -/
theorem hexDigit_isHex {d : ℕ} (hd : d < 16) : IsHex (hexDigit d) := by
  have h : ∀ d < 16, IsHex (hexDigit d) := by unfold IsHex; decide
  exact h d hd

/-- A printed number has hexadecimal digits only. -/
theorem isHex_of_mem_hexText {k n : ℕ} {c : BYTE} (hc : c ∈ hexText k n) : IsHex c := by
  rcases List.mem_map.mp hc with ⟨d, hd, rfl⟩
  exact hexDigit_isHex (Lib.digits_lt (by decide) hd)

@[simp] theorem length_hexText (k n : ℕ) : (hexText k n).length = k := by
  simp [hexText]

/-- The first digits, and the others. -/
theorem hexText_add (j k n : ℕ) : hexText (j + k) n = hexText j (n / 16 ^ k) ++ hexText k n := by
  simp [hexText, Lib.digits_add]

/-- A hexadecimal digit does not end a string. -/
theorem IsHex.ne_zero {c : BYTE} (h : IsHex c) : c ≠ 0 := by
  rintro rfl
  revert h
  unfold IsHex
  decide

/-- Nor does it end an address. -/
theorem IsHex.ne_colon {c : BYTE} (h : IsHex c) : c ≠ 58 := by
  rintro rfl
  revert h
  unfold IsHex
  decide

/-! ## `Hex2Dec` -/

/-- One digit of `Hex2Dec` is one step of Horner's rule. -/
theorem hex2DecStep_hexDigit (r : DWORD) {d : ℕ} (hd : d < 16) :
    (hex2DecStep r (hexDigit d)).toNat = (r.toNat * 16 + d) % 2 ^ 32 := by
  have hcode : ∀ d < 16,
      if 48 ≤ hexDigit d ∧ hexDigit d ≤ 57 then (hexDigit d).toNat - 48 = d
      else (65 ≤ hexDigit d ∧ hexDigit d ≤ 70) ∧ (hexDigit d).toNat - 65 + 10 = d := by
    decide
  have hstep : hex2DecStep r (hexDigit d) = r <<< 4 + UInt32.ofNat d := by
    have hc := hcode d hd
    unfold hex2DecStep
    dsimp only
    split at hc
    · rename_i hdigit
      rw [if_pos hdigit, hc]
    · rename_i hdigit
      rw [if_neg hdigit, if_pos hc.1, hc.2]
  rw [hstep, UInt32.toNat_add, UInt32.toNat_shiftLeft, UInt32.toNat_ofNat', Nat.shiftLeft_eq]
  change (r.toNat * 2 ^ 4 % 2 ^ 32 + d % 2 ^ 32) % 2 ^ 32 = _
  omega

/-- `Hex2Dec` computes the number modulo 2^32. -/
theorem foldl_hex2DecStep (ds : List ℕ) (hds : ∀ d ∈ ds, d < 16) (r : DWORD) :
    ((ds.map hexDigit).foldl hex2DecStep r).toNat =
      ds.foldl (fun r d => r * 16 + d) r.toNat % 2 ^ 32 := by
  induction ds using List.reverseRecOn with
  | nil => exact (Nat.mod_eq_of_lt r.toNat_lt).symm
  | append_singleton ds d ih =>
      simp only [List.forall_mem_append, List.forall_mem_singleton] at hds
      rw [List.map_append, List.foldl_append, List.foldl_append]
      simp only [List.map_cons, List.map_nil, List.foldl_cons, List.foldl_nil]
      rw [hex2DecStep_hexDigit _ hds.2, ih hds.1]
      omega

/-- Bytes without a 0 are a string. -/
theorem cString_of_forall_ne_zero {bs : Bytes} (h : ∀ b ∈ bs, b ≠ 0) : cString bs = bs := by
  unfold cString
  rw [List.takeWhile_eq_self_iff]
  simpa using h

/-- `Hex2Dec` reads a field of `k` digits back, whatever follows it when it
reads no further. -/
theorem hex2Dec_hexText {k n m : ℕ} {rest : Bytes} (hm : m = k ∨ (k ≤ m ∧ rest = [])) :
    (hex2Dec (hexText k n ++ rest) m).toNat = n % 16 ^ k % 2 ^ 32 := by
  have htake : (hexText k n ++ rest).take m = hexText k n := by
    rcases hm with rfl | ⟨hm, rfl⟩
    · rw [List.take_append_of_le_length (by simp), List.take_of_length_le (by simp)]
    · rw [List.append_nil, List.take_of_length_le (by simpa using hm)]
  have hstr : cString (hexText k n) = hexText k n :=
    cString_of_forall_ne_zero fun c hc => (isHex_of_mem_hexText hc).ne_zero
  rw [hex2Dec, htake, hstr, hexText,
    foldl_hex2DecStep _ fun d hd => Lib.digits_lt (by decide) hd, Lib.foldl_digits]
  simp

/-! ## `GetSocketInfo` -/

/-- An address has 8 digits, or 32. -/
theorem Endpoint.length_addr (e : Endpoint) : e.addr.length = 8 ∨ e.addr.length = 32 := by
  have hlen : e.addr.length = e.upper.length * 8 + 8 := by
    simp [Endpoint.addr, List.length_flatMap]
  rcases e.length_upper with h | h
  · left; omega
  · right; omega

theorem Endpoint.isHex_of_mem_addr {e : Endpoint} {c : BYTE} (hc : c ∈ e.addr) : IsHex c := by
  rcases List.mem_append.mp hc with hc | hc
  · rcases List.mem_flatMap.mp hc with ⟨w, _, hc⟩
    exact isHex_of_mem_hexText hc
  · exact isHex_of_mem_hexText hc

/-- The colon stands right behind the address. -/
theorem Endpoint.idxOf_colon (e : Endpoint) : e.text.idxOf 58 = e.addr.length := by
  have hnot : (58 : BYTE) ∉ e.addr := fun h => (isHex_of_mem_addr h).ne_colon rfl
  rw [Endpoint.text, List.idxOf_append_of_notMem hnot, List.idxOf_cons_self, Nat.add_zero]

/-- The two digits `j + 2` characters before the colon, for the four bytes of
the last word. -/
theorem Endpoint.hex2Dec_addr (e : Endpoint) {j : ℕ} (hj : j ≤ 6) :
    (hex2Dec (e.addr.drop (e.addr.length - (2 + j))) 2).toNat =
      e.word.toNat / 16 ^ j % 256 := by
  have hsplit : e.addr = ((e.upper.flatMap fun w => hexText 8 w.toNat) ++
      hexText (6 - j) (e.word.toNat / 16 ^ (2 + j))) ++ hexText (2 + j) e.word.toNat := by
    have h8 : 8 = (6 - j) + (2 + j) := by omega
    rw [List.append_assoc, ← hexText_add, ← h8, Endpoint.addr]
  have hdrop : e.addr.drop (e.addr.length - (2 + j)) = hexText (2 + j) e.word.toNat := by
    rw [hsplit, List.length_append, length_hexText, Nat.add_sub_cancel, List.drop_left]
  rw [hdrop, hexText_add, hex2Dec_hexText (Or.inl rfl)]
  omega

/-- The four bytes of a word, put back in place. -/
theorem or_bytes {w b₀ b₁ b₂ b₃ : DWORD} (h₀ : b₀.toNat = w.toNat / 16 ^ 0 % 256)
    (h₁ : b₁.toNat = w.toNat / 16 ^ 2 % 256) (h₂ : b₂.toNat = w.toNat / 16 ^ 4 % 256)
    (h₃ : b₃.toNat = w.toNat / 16 ^ 6 % 256) :
    b₀ ||| (b₁ <<< 8) ||| (b₂ <<< 16) ||| (b₃ <<< 24) = w := by
  have hor (k a b : ℕ) (ha : a < 2 ^ k) : a ||| b * 2 ^ k = a + b * 2 ^ k := by
    rw [Nat.or_comm, Nat.mul_comm, ← Nat.two_pow_add_eq_or_of_lt ha, Nat.add_comm]
  have hw := w.toNat_lt
  apply UInt32.toNat_inj.mp
  simp only [UInt32.toNat_or, UInt32.toNat_shiftLeft, Nat.shiftLeft_eq]
  change b₀.toNat ||| b₁.toNat * 2 ^ 8 % 2 ^ 32 ||| b₂.toNat * 2 ^ 16 % 2 ^ 32 |||
    b₃.toNat * 2 ^ 24 % 2 ^ 32 = w.toNat
  rw [Nat.mod_eq_of_lt (by omega : b₁.toNat * 2 ^ 8 < 2 ^ 32),
    Nat.mod_eq_of_lt (by omega : b₂.toNat * 2 ^ 16 < 2 ^ 32),
    Nat.mod_eq_of_lt (by omega : b₃.toNat * 2 ^ 24 < 2 ^ 32),
    hor 8 _ _ (by omega), hor 16 _ _ (by omega), hor 24 _ _ (by omega)]
  omega

/-- `GetSocketInfo` gives the last word and the port of an endpoint back. -/
theorem getSocketInfo_text (e : Endpoint) :
    getSocketInfo e.text = .ok (e.word, e.port.toNat) := by
  have hport : (hex2Dec (e.text.drop (e.addr.length + 1)) 32).toNat = e.port.toNat := by
    have hdrop : e.text.drop (e.addr.length + 1) = hexText 4 e.port.toNat ++ [] := by
      rw [Endpoint.text, ← List.drop_drop, List.drop_left, List.append_nil, List.drop_one,
        List.tail_cons]
    have hlt := e.port.toNat_lt
    rw [hdrop, hex2Dec_hexText (Or.inr ⟨by decide, rfl⟩)]
    omega
  have hint : (hex2Dec (e.text.drop (e.addr.length + 1)) 32).toBitVec.toInt = e.port.toNat := by
    have hlt := e.port.toNat_lt
    rw [BitVec.toInt_eq_toNat_of_lt] <;> simp only [UInt32.toNat_toBitVec, hport]
    omega
  have htake : e.text.take e.addr.length = e.addr := by
    rw [Endpoint.text, List.take_left]
  have hfound : ¬(e.addr.length = e.text.length ∨ (e.addr.length ≠ 8 ∧ e.addr.length ≠ 32)) := by
    have hlen : e.text.length = e.addr.length + 5 := by simp [Endpoint.text]
    have h := e.length_addr
    omega
  have hrange : ¬((e.port.toNat : Int) < 0 ∨ (e.port.toNat : Int) > 65535) := by
    have hlt := e.port.toNat_lt
    omega
  have hword := or_bytes (e.hex2Dec_addr (by decide : 0 ≤ 6)) (e.hex2Dec_addr (by decide : 2 ≤ 6))
    (e.hex2Dec_addr (by decide : 4 ≤ 6)) (e.hex2Dec_addr (by decide : 6 ≤ 6))
  unfold getSocketInfo
  rw [e.idxOf_colon]
  dsimp only
  rw [if_neg hfound, hint, if_neg hrange, htake, hport]
  exact congrArg (fun ip => Except.ok (ip, e.port.toNat)) hword

/-! ## `atoi` -/

/-- The code of a digit is a digit. -/
theorem digit_code {c : Char} (hc : c.isDigit) :
    isDigit (UInt8.ofNat c.toNat) ∧ (UInt8.ofNat c.toNat).toNat = c.toNat := by
  have hrange := Char.isDigit_iff_toNat.mp hc
  change 48 ≤ c.toNat ∧ c.toNat ≤ 57 at hrange
  have hcode : (UInt8.ofNat c.toNat).toNat = c.toNat := by
    rw [UInt8.toNat_ofNat']
    omega
  refine ⟨?_, hcode⟩
  simp only [isDigit, Bool.and_eq_true, decide_eq_true_eq, UInt8.le_iff_toNat_le, hcode]
  exact hrange

/-- A printed number has digits only. -/
theorem isDigit_of_mem_decimal {n : ℕ} {b : BYTE} (hb : b ∈ decimal n) : isDigit b := by
  rcases List.mem_map.mp hb with ⟨c, hc, rfl⟩
  exact (digit_code (Nat.isDigit_of_mem_toDigits (by decide) (by decide) hc)).1

/-- `atoi` of a nonempty run of digits reads them by Horner's rule. -/
theorem atoi_of_digits {str : Bytes} (hne : str ≠ []) (hstr : ∀ b ∈ str, isDigit b) :
    atoi str = str.foldl (fun (r : Int) b => r * 10 + (b.toNat - 48 : ℕ)) 0 := by
  cases str with
  | nil => exact absurd rfl hne
  | cons b str =>
      have hb := hstr b List.mem_cons_self
      -- a digit is neither a space nor a sign
      have hnot : (b = 32 || (9 ≤ b && b ≤ 13)) = false ∧ b ≠ 45 ∧ b ≠ 43 := by
        have h : ∀ b : BYTE, isDigit b →
            (b = 32 || (9 ≤ b && b ≤ 13)) = false ∧ b ≠ 45 ∧ b ≠ 43 := by
          intro b
          simp only [isDigit, Bool.and_eq_true, decide_eq_true_eq, Bool.or_eq_false_iff,
            decide_eq_false_iff_not, Bool.and_eq_false_iff, UInt8.le_iff_toNat_le, ne_eq,
            ← UInt8.toNat_inj, UInt8.reduceToNat]
          omega
        exact h b hb
      have hdrop : (b :: str).dropWhile (fun b => b = 32 || (9 ≤ b && b ≤ 13)) = b :: str :=
        List.dropWhile_cons_of_neg (by simp [hnot.1])
      have htake : (b :: str).takeWhile isDigit = b :: str :=
        List.takeWhile_eq_self_iff.mpr hstr
      unfold atoi
      rw [hdrop]
      dsimp only
      split
      · rename_i heq
        cases heq
        exact absurd rfl hnot.2.1
      · rename_i heq
        cases heq
        exact absurd rfl hnot.2.2
      · rw [htake]

/-- `atoi` gives a number printed by `%lu` back. -/
theorem atoi_decimal (n : ℕ) : atoi (decimal n) = n := by
  have hne : decimal n ≠ [] := by simp [decimal]
  rw [atoi_of_digits hne fun b hb => isDigit_of_mem_decimal hb, decimal, List.foldl_map]
  have hcast (cs : List Char) (hcs : ∀ c ∈ cs, c.isDigit) (r : ℕ) :
      cs.foldl (fun (r : Int) c => r * 10 + ((UInt8.ofNat c.toNat).toNat - 48 : ℕ)) r =
        (Nat.ofDigitChars 10 cs r : ℕ) := by
    induction cs generalizing r with
    | nil => simp
    | cons c cs ih =>
        simp only [List.forall_mem_cons] at hcs
        rw [List.foldl_cons, (digit_code hcs.1).2, Nat.ofDigitChars_cons, ← ih hcs.2]
        congr 1
        rw [Nat.mul_comm 10 r]
        norm_cast
  have h := hcast (Nat.toDigits 10 n)
    (fun c hc => Nat.isDigit_of_mem_toDigits (by decide) (by decide) hc) 0
  rwa [Nat.ofDigitChars_ten_toDigits] at h

/-! ## Lines and files -/

/-- What `ReadConnections` takes for white space. -/
def isBlank (b : BYTE) : Bool := b ≤ 32

/-- A line of blank-separated fields that `fgets` reads in one piece. -/
structure TextLine extends Lib.Layout isBlank where
  clean : ∀ b ∈ toLayout.text, b ≠ 0 ∧ b ≠ 10
  short : toLayout.text.length + 1 < 4096

/-- The line of a socket. -/
structure SocketLine extends TextLine where
  localEnd : Endpoint
  remoteEnd : Endpoint
  iNode : ℕ
  iNode_lt : iNode < 2 ^ 31
  field_local : toLayout.words[1]? = some localEnd.text
  field_remote : toLayout.words[2]? = some remoteEnd.text
  field_iNode : toLayout.words[9]? = some (decimal iNode)

/-- A line with less than ten fields. -/
structure BrokenLine extends TextLine where
  few : toLayout.words.length < 10
  field_local : ∀ f, toLayout.words[1]? = some f → ∃ e : Endpoint, f = e.text
  field_remote : ∀ f, toLayout.words[2]? = some f → ∃ e : Endpoint, f = e.text

inductive NetLine where
  | socket (l : SocketLine)
  | broken (l : BrokenLine)

def NetLine.toTextLine : NetLine → TextLine
  | .socket l => l.toTextLine
  | .broken l => l.toTextLine

/-- The line as it stands in the file. -/
def NetLine.text (l : NetLine) : Bytes := l.toTextLine.toLayout.text

/-- How many connections a line describes. -/
def NetLine.count : NetLine → ℕ
  | .socket _ => 1
  | .broken _ => 0

/-- The connection the line of a socket describes. -/
def SocketLine.conn (l : SocketLine) (protocol : ℕ) (curSec : Int) : ConnInfo where
  localIP := l.localEnd.word
  remoteIP := l.remoteEnd.word
  localPort := l.localEnd.port.toNat
  remotePort := l.remoteEnd.port.toNat
  protocol := protocol
  iNode := UInt32.ofNat l.iNode
  pid := -1
  appid := -1
  tvSec := curSec

/-- The connection a line describes, if it is complete. -/
def NetLine.entry (protocol : ℕ) (curSec : Int) : NetLine → Option ConnInfo
  | .socket l => some (l.conn protocol curSec)
  | .broken _ => none

/-- A socket table: a header line, then lines of either kind. -/
structure NetFile where
  header : Bytes
  lines : List NetLine
  header_clean : ∀ b ∈ header, b ≠ 10
  header_short : header.length + 1 < 4096

/-- The text of the file. Every line ends in a newline. -/
def NetFile.text (f : NetFile) : Bytes :=
  (f.header :: f.lines.map NetLine.text).flatMap (· ++ [10])

/-- The connections of the file, in order. -/
def NetFile.entries (f : NetFile) (protocol : ℕ) (curSec : Int) : List ConnInfo :=
  f.lines.filterMap (NetLine.entry protocol curSec)

/-- Every line is read while `conns` has an entry left, when `n` are in use. -/
def Fits : ℕ → List NetLine → Prop
  | _, [] => True
  | n, l :: ls => n < maxConns ∧ Fits (n + l.count) ls

/-- The connections of lines that fit do not exceed the table. -/
theorem Fits.sum_count_le {n : ℕ} {lines : List NetLine} (h : Fits n lines) (hn : n ≤ maxConns) :
    n + (lines.map NetLine.count).sum ≤ maxConns := by
  induction lines generalizing n with
  | nil => exact hn
  | cons l lines ih =>
      have hcount : l.count ≤ 1 := by cases l <;> simp [NetLine.count]
      have hlt := h.1
      have hrest := ih h.2 (by omega)
      rw [List.map_cons, List.sum_cons]
      omega

/-! ## Reading lines -/

/-- The fields of a line are what was laid out. -/
theorem TextLine.fields_text (l : TextLine) :
    fields (cString (l.text ++ [10])) = l.words := by
  have hstr : cString (l.text ++ [10]) = l.text ++ [10] := by
    apply cString_of_forall_ne_zero
    intro b hb
    rcases List.mem_append.mp hb with hb | hb
    · exact (l.clean b hb).1
    · rw [List.mem_singleton.mp hb]
      decide
  rw [hstr]
  exact l.toLayout.tokens_text (by simp [isBlank])

section ReadLine

variable {protocol : ℕ} {curSec : Int} {t : ConnTable}

/-- The line of a socket becomes the next entry. -/
theorem readLine_socket (L : Limits) (protocol : ℕ) (curSec : Int) (l : SocketLine)
    (h : t.nConns < L.conns) :
    readLine L protocol curSec t (l.text ++ [10]) =
      .ok (ConnTable.pushConn
        { t with conns := Function.update t.conns t.nConns (l.conn protocol curSec) }
        (inoHash (UInt32.ofNat l.iNode))) := by
  have hinode : UInt32.ofInt (atoi (decimal l.iNode)) = UInt32.ofNat l.iNode := by
    have hlt := l.iNode_lt
    have hmod : ((l.iNode : Int) % 2 ^ 32).toNat = l.iNode := by omega
    rw [atoi_decimal, UInt32.ofInt, hmod]
  unfold readLine
  rw [if_neg (Nat.not_le.mpr h), l.fields_text]
  simp only [readEndpoint, l.field_local, l.field_remote, getSocketInfo_text, l.field_iNode,
    hinode, bind, Except.bind]
  rfl

/-- A field that is an endpoint, if there is one, does not stop the run. -/
theorem readEndpoint_ok {fs : List Bytes} {j : ℕ} (old : DWORD × ℕ)
    (h : ∀ f, fs[j]? = some f → ∃ e : Endpoint, f = e.text) :
    ∃ r, readEndpoint fs j old = .ok r := by
  unfold readEndpoint
  split
  · exact ⟨_, rfl⟩
  · rename_i f hf
    rcases h f hf with ⟨e, rfl⟩
    exact ⟨_, getSocketInfo_text e⟩

/-- Any other line only writes past the entries. -/
theorem readLine_broken (L : Limits) (protocol : ℕ) (curSec : Int) (l : BrokenLine)
    (h : t.nConns < L.conns) :
    ∃ c, readLine L protocol curSec t (l.text ++ [10]) =
      .ok { t with conns := Function.update t.conns t.nConns c } := by
  obtain ⟨⟨lip, lp⟩, hl⟩ := readEndpoint_ok
    ((t.conns t.nConns).localIP, (t.conns t.nConns).localPort) l.field_local
  obtain ⟨⟨rip, rp⟩, hr⟩ := readEndpoint_ok
    ((t.conns t.nConns).remoteIP, (t.conns t.nConns).remotePort) l.field_remote
  have hnone : l.words[9]? = none := List.getElem?_eq_none (Nat.le_of_lt_succ l.few)
  unfold readLine
  rw [if_neg (Nat.not_le.mpr h), l.fields_text]
  simp only [hl, hr, hnone, bind, Except.bind]
  exact ⟨_, rfl⟩

/-- What is written at `nConns` is no entry yet. -/
theorem map_range_update (conns : ℕ → ConnInfo) (n : ℕ) (c : ConnInfo) :
    (List.range n).map (Function.update conns n c) = (List.range n).map conns := by
  apply List.map_congr_left
  intro i hi
  exact Function.update_of_ne (Nat.ne_of_lt (List.mem_range.mp hi)) _ _

/-- A line that finds room adds its socket, if it has one. -/
theorem readLine_netLine (L : Limits) (protocol : ℕ) (curSec : Int) (l : NetLine)
    (h : t.nConns < L.conns) :
    ∃ t', readLine L protocol curSec t (l.text ++ [10]) = .ok t' ∧
      t'.entries = t.entries ++ (l.entry protocol curSec).toList ∧
      t'.nConns = t.nConns + l.count := by
  cases l with
  | socket l =>
      refine ⟨_, readLine_socket L protocol curSec l h, ?_, rfl⟩
      simp [ConnTable.entries, ConnTable.pushConn, List.range_succ, map_range_update,
        NetLine.entry]
  | broken l =>
      obtain ⟨c, hline⟩ := readLine_broken L protocol curSec l h
      refine ⟨_, hline, ?_, rfl⟩
      simp [ConnTable.entries, map_range_update, NetLine.entry]

/-- With room for each line the file is appended entry by entry. -/
theorem readLines_of_fits (protocol : ℕ) (curSec : Int) {lines : List NetLine}
    (h : Fits t.nConns lines) :
    ∃ t', (lines.map (·.text ++ [10])).foldlM (readLine srcLimits protocol curSec) t = .ok t' ∧
      t'.entries = t.entries ++ lines.filterMap (NetLine.entry protocol curSec) := by
  induction lines generalizing t with
  | nil => exact ⟨t, rfl, (List.append_nil _).symm⟩
  | cons l lines ih =>
      rcases readLine_netLine srcLimits protocol curSec l h.1
        with ⟨t₁, hline, hentries, hn⟩
      rcases ih (t := t₁) (by rw [hn]; exact h.2) with ⟨t', hlines, hrest⟩
      refine ⟨t', ?_, ?_⟩
      · rw [List.map_cons, List.foldlM_cons, hline]
        exact hlines
      · rw [hrest, hentries, List.append_assoc]
        cases l <;> rfl

/-- A run that gets through had room for each line. -/
theorem fits_of_readLines {lines : List NetLine} {t' : ConnTable}
    (h : (lines.map (·.text ++ [10])).foldlM (readLine srcLimits protocol curSec) t = .ok t') :
    Fits t.nConns lines := by
  induction lines generalizing t with
  | nil => trivial
  | cons l lines ih =>
      rw [List.map_cons, List.foldlM_cons] at h
      rcases Lib.except_bind_eq_ok.mp h with ⟨t₁, hline, h⟩
      have hroom := (readLine_cases hline).1
      rcases readLine_netLine srcLimits protocol curSec l hroom
        with ⟨t₂, hline₂, _, hn⟩
      have ht : t₁ = t₂ := by
        rw [hline] at hline₂
        exact Except.ok.inj hline₂
      refine ⟨hroom, ?_⟩
      rw [← hn, ← ht]
      exact ih h

end ReadLine

/-! ## Files -/

/-- Reading a file is reading its lines. -/
theorem readConnections_netFile {L : Limits} {fs : ProcFs} {filename : String} {protocol : ℕ}
    {curSec : Int} {t : ConnTable} (f : NetFile) (hfile : fs.netFile filename = some f.text) :
    readConnections L fs filename protocol curSec t =
      (f.lines.map (·.text ++ [10])).foldlM (readLine L protocol curSec) t := by
  have hlines : fgetsLines 4096 f.text.length f.text =
      (f.header :: f.lines.map NetLine.text).map (· ++ [10]) := by
    apply fgetsLines_flatMap
    · simp only [List.forall_mem_cons, List.forall_mem_map]
      exact ⟨⟨f.header_clean, f.header_short⟩,
        fun l _ => ⟨fun b hb => (l.toTextLine.clean b hb).2, l.toTextLine.short⟩⟩
    · -- every line has a byte at least, its newline
      have hle (ls : List Bytes) : ls.length ≤ (ls.flatMap (· ++ [10])).length := by
        induction ls with
        | nil => simp
        | cons l ls ih =>
            simp only [List.flatMap_cons, List.length_append, List.length_cons] at ih ⊢
            omega
      exact hle _
  unfold readConnections
  rw [hfile]
  dsimp only
  rw [hlines, List.map_cons, List.tail_cons, List.map_map]
  rfl

/-- Reading a socket table appends exactly one entry for each complete line, in
order, with the numbers the kernel wrote, if and only if `conns` had room
whenever a line was read. -/
theorem readConnections_netFile_iff (fs : ProcFs) (filename : String) (protocol : ℕ)
    (curSec : Int) (t : ConnTable) (f : NetFile) (hfile : fs.netFile filename = some f.text) :
    (∃ t', readConnections srcLimits fs filename protocol curSec t = .ok t' ∧
      t'.entries = t.entries ++ f.entries protocol curSec) ↔ Fits t.nConns f.lines := by
  rw [readConnections_netFile f hfile]
  constructor
  · rintro ⟨t', h, _⟩
    exact fits_of_readLines h
  · intro h
    exact readLines_of_fits protocol curSec h

/-- Fields with one blank behind each. -/
def spaced (words : List String) : List (Bytes × Bytes) := words.map fun w => (text w, [32])

/-- A listening socket as the kernel writes it: 127.0.0.1, port 5037, inode 2234. -/
def listenLine : SocketLine where
  lead := text "   "
  cells := spaced ["0:", "0100007F:13AD", "00000000:0000", "0A", "00000000:00000000",
    "00:00000000", "00000000", "0", "0", "2234", "1"]
  lead_sep := by decide +kernel
  word_ne := by decide +kernel
  word_sep := by decide +kernel
  gap_sep := by decide +kernel
  gap_ne := by decide +kernel
  clean := by decide +kernel
  short := by decide +kernel
  localEnd := ⟨[], 0x0100007F, 5037, Or.inl rfl⟩
  remoteEnd := ⟨[], 0, 0, Or.inl rfl⟩
  iNode := 2234
  iNode_lt := by decide
  field_local := by decide +kernel
  field_remote := by decide +kernel
  field_iNode := by decide +kernel

/-- A line that is cut off behind its first field. -/
def cutLine : BrokenLine where
  lead := text "   "
  cells := spaced ["1:"]
  lead_sep := by decide +kernel
  word_ne := by decide +kernel
  word_sep := by decide +kernel
  gap_sep := by decide +kernel
  gap_ne := by decide +kernel
  clean := by decide +kernel
  short := by decide +kernel
  few := by decide +kernel
  field_local := by rintro f ⟨⟩
  field_remote := by rintro f ⟨⟩

/-- The file with the given lines under a header. -/
def NetFile.ofLines (lines : List NetLine) : NetFile where
  header := SocketProc.text "  sl  local_address rem_address   st tx_queue"
  lines := lines
  header_clean := by decide +kernel
  header_short := by decide +kernel

/-- The snapshot that has nothing but these lines in each socket table. -/
def ProcFs.ofLines (lines : List NetLine) : ProcFs where
  netFile _ := some (NetFile.ofLines lines).text
  dirents := none
  fds _ := none
  cmdline _ := none

theorem readConnections_netFile_listen :
    ∃ t', readConnections srcLimits (.ofLines [.socket listenLine, .broken cutLine])
        "/proc/net/tcp" protTcp 100 State.zero.toConnTable = .ok t' ∧
      t'.entries = State.zero.toConnTable.entries ++
        NetFile.entries (.ofLines [.socket listenLine, .broken cutLine]) protTcp 100 :=
  (readConnections_netFile_iff (.ofLines [.socket listenLine, .broken cutLine]) "/proc/net/tcp"
    protTcp 100 State.zero.toConnTable (.ofLines [.socket listenLine, .broken cutLine]) rfl).mpr
    ⟨by decide, by decide, trivial⟩

/-- 513 sockets are one more than `conns` holds. -/
theorem readConnections_overfull :
    ¬∀ (fs : ProcFs) (filename : String) (protocol : ℕ) (curSec : Int) (t : ConnTable)
      (f : NetFile), fs.netFile filename = some f.text →
      ∃ t', readConnections srcLimits fs filename protocol curSec t = .ok t' ∧
        t'.entries = t.entries ++ f.entries protocol curSec := by
  intro h
  let lines := List.replicate 513 (NetLine.socket listenLine)
  rcases h (.ofLines lines) "/proc/net/tcp" protTcp 100 State.zero.toConnTable (.ofLines lines) rfl
    with ⟨t', ht', _⟩
  rw [readConnections_netFile (.ofLines lines) rfl] at ht'
  have hfits : Fits 0 lines := fits_of_readLines ht'
  have hle := hfits.sum_count_le (Nat.zero_le _)
  simp only [lines, List.map_replicate, List.sum_replicate_nat, NetLine.count, maxConns] at hle
  omega

end MobiPerf.SocketProc
