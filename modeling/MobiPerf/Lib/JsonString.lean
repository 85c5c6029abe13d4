import Mathlib.Data.List.Basic
import Mathlib.Tactic.SplitIfs

/-!
# Lib.JsonString — strings in JSON

A string is written between quotes, with escapes for the quote, the backslash, the
ends of lines and the characters that mean something in HTML. The reader takes the
string off the front of a text and leaves the rest.

* `readChars_append`: a string that was written is read back, whatever follows it;
* `unquote_quote`: so it is on its own.
-/

namespace MobiPerf.Lib.JsonString

/-- How a character is written. -/
def escape (c : Char) : List Char :=
  if c = '"' ∨ c = '\\' then ['\\', c]
  else if c = '\n' then ['\\', 'n']
  else if c = '\r' then ['\\', 'r']
  else if c = '=' then ['\\', 'u', '0', '0', '3', 'd']
  else if c = '<' then ['\\', 'u', '0', '0', '3', 'c']
  else if c = '>' then ['\\', 'u', '0', '0', '3', 'e']
  else if c = '&' then ['\\', 'u', '0', '0', '2', '6']
  else if c = '\'' then ['\\', 'u', '0', '0', '2', '7']
  else [c]

/-- The characters with an escape. -/
def escaped : List Char := ['"', '\\', '\n', '\r', '=', '<', '>', '&', '\'']

theorem escape_of_notMem {c : Char} (h : c ∉ escaped) : escape c = [c] := by
  simp only [escaped, List.mem_cons, List.not_mem_nil, or_false, not_or] at h
  simp [escape, h]

/-- A string behind its opening quote. -/
def closed (cs : List Char) : List Char := cs.flatMap escape ++ ['"']

/-- The characters up to the closing quote, and what follows it. -/
def readChars : List Char → List Char × List Char
  | [] => ([], [])
  | '"' :: rest => ([], rest)
  | '\\' :: 'n' :: rest => ('\n' :: (readChars rest).1, (readChars rest).2)
  | '\\' :: 'r' :: rest => ('\r' :: (readChars rest).1, (readChars rest).2)
  | '\\' :: 'u' :: '0' :: '0' :: '3' :: 'd' :: rest =>
    ('=' :: (readChars rest).1, (readChars rest).2)
  | '\\' :: 'u' :: '0' :: '0' :: '3' :: 'c' :: rest =>
    ('<' :: (readChars rest).1, (readChars rest).2)
  | '\\' :: 'u' :: '0' :: '0' :: '3' :: 'e' :: rest =>
    ('>' :: (readChars rest).1, (readChars rest).2)
  | '\\' :: 'u' :: '0' :: '0' :: '2' :: '6' :: rest =>
    ('&' :: (readChars rest).1, (readChars rest).2)
  | '\\' :: 'u' :: '0' :: '0' :: '2' :: '7' :: rest =>
    ('\'' :: (readChars rest).1, (readChars rest).2)
  | '\\' :: c :: rest => (c :: (readChars rest).1, (readChars rest).2)
  | c :: rest => (c :: (readChars rest).1, (readChars rest).2)

def quote (s : String) : String := String.ofList ('"' :: closed s.toList)

/-- A text that is no string is not read. -/
def unquote (s : String) : Option String :=
  match s.toList with
  | '"' :: rest =>
    if (readChars rest).2 = [] then some (String.ofList (readChars rest).1) else none
  | _ => none

theorem readChars_plain {c : Char} (hquote : c ≠ '"') (hbackslash : c ≠ '\\') (rest : List Char) :
    readChars (c :: rest) = (c :: (readChars rest).1, (readChars rest).2) := by
  rw [readChars.eq_def]
  split <;> first | rfl | simp_all

/-- One escape is taken off the front. -/
theorem readChars_escape (c : Char) (rest : List Char) :
    readChars (escape c ++ rest) = (c :: (readChars rest).1, (readChars rest).2) := by
  unfold escape
  split_ifs with hself hn hr heq hlt hgt hamp hapostrophe
  · rcases hself with rfl | rfl
    · rfl
    · rfl
  · rw [hn]; rfl
  · rw [hr]; rfl
  · rw [heq]; rfl
  · rw [hlt]; rfl
  · rw [hgt]; rfl
  · rw [hamp]; rfl
  · rw [hapostrophe]; rfl
  · rw [not_or] at hself
    exact readChars_plain hself.1 hself.2 rest

theorem readChars_append (cs rest : List Char) : readChars (closed cs ++ rest) = (cs, rest) := by
  unfold closed
  induction cs with
  | nil => rfl
  | cons c cs ih =>
      rw [List.append_assoc] at ih
      rw [List.flatMap_cons, List.append_assoc, List.append_assoc, readChars_escape, ih]

theorem unquote_quote (s : String) : unquote (quote s) = some s := by
  have hread := readChars_append s.toList []
  rw [List.append_nil] at hread
  unfold unquote quote
  rw [String.toList_ofList]
  change (if (readChars (closed s.toList)).2 = [] then
    some (String.ofList (readChars (closed s.toList)).1) else none) = some s
  rw [hread, if_pos rfl, String.ofList_toList]

theorem quote_of_plain {s : String} (h : ∀ c ∈ s.toList, c ∉ escaped) :
    quote s = "\"" ++ s ++ "\"" := by
  have hplain : s.toList.flatMap escape = s.toList := by
    rw [List.flatMap_congr fun c hc => escape_of_notMem (h c hc)]
    exact List.flatMap_singleton' _
  unfold quote closed
  rw [hplain, ← String.toList_inj, String.toList_ofList, String.toList_append, String.toList_append]
  rfl

end MobiPerf.Lib.JsonString
