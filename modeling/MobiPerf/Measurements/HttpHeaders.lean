import MobiPerf.Measurements.Http

/-!
# Measurements.HttpHeaders — the headers of a request

The description of an http task holds the headers as a text, a line for each. A call
cuts the text into lines and each line at its colons, and takes a line with two pieces
for a header.

* `HttpTask.prepare_eq_ok_iff`: the headers a request gets are those of the lines;
* `HttpTask.headerOf_headerLine_iff`: a line is read back when its value has no colon
  and is not empty;
* `HttpTask.prepare_encoded_iff`: so are the headers of a text.
-/

namespace MobiPerf.Measurements

open Lib Scheduler

namespace HttpTask

/-! ## Encoding -/

/-- `name:value`. -/
def headerLine (header : String × String) : String := header.1 ++ ":" ++ header.2

/-- The lines, with a carriage return and a line feed between them. -/
def encodeHeaders (headers : List (String × String)) : String :=
  String.ofList (List.intercalate ['\r', '\n'] (headers.map fun h => (headerLine h).toList))

/-- A name is a word without a colon; a value is on one line and does not start or end
with white space. -/
structure IsHeader (header : String × String) : Prop where
  name_ne_empty : header.1 ≠ ""
  name_word : ∀ c ∈ header.1.toList, c ≠ ':' ∧ c ≠ '\r' ∧ c ≠ '\n' ∧ ¬ c.isWhitespace
  value_line : ∀ c ∈ header.2.toList, c ≠ '\r' ∧ c ≠ '\n'
  value_head : ∀ c ∈ header.2.toList.head?, ¬ c.isWhitespace
  value_last : ∀ c ∈ header.2.toList.getLast?, ¬ c.isWhitespace

/-! ## Decoding -/

/-- The header of a line, if it is one. -/
def headerOf (line : String) : Option (String × String) :=
  match split ':' line with
  | [name, value] => some (name, value)
  | _ => none

/-- A line adds its header, if it has one. -/
theorem addHeader_eq (request : HttpRequest) (line : String) :
    addHeader request line =
      match headerOf line with
      | some header => .ok { request with headers := request.headers ++ [header] }
      | none => .error (.measurementError ("Incorrect header line: " ++ line)) := by
  unfold addHeader headerOf
  rcases split ':' line with _ | ⟨name, _ | ⟨value, _ | ⟨third, rest⟩⟩⟩
  · rfl
  · rfl
  · rfl
  · rfl

/-- Every line has to be a header. -/
theorem foldlM_addHeader_eq_ok_iff {lines : List String} {request request' : HttpRequest} :
    lines.foldlM addHeader request = .ok request' ↔
      ∃ headers, lines.map headerOf = headers.map some ∧
        request' = { request with headers := request.headers ++ headers } := by
  induction lines generalizing request with
  | nil =>
      rw [List.foldlM_nil, List.map_nil]
      constructor
      · intro h
        exact ⟨[], rfl, by rw [List.append_nil]; exact (Except.ok.inj h).symm⟩
      · intro ⟨headers, hnil, hrequest⟩
        rw [hrequest, List.map_eq_nil_iff.mp hnil.symm, List.append_nil]
        rfl
  | cons line lines ih =>
      rw [List.foldlM_cons, addHeader_eq, List.map_cons]
      -- a line that is no header ends the loop
      cases hline : headerOf line with
      | none =>
          constructor
          · intro h
            cases h
          · intro ⟨headers, hmap, _⟩
            obtain ⟨header, _, _, hheader, _⟩ := List.map_eq_cons_iff.mp hmap.symm
            cases hheader
      | some header =>
          change lines.foldlM addHeader { request with headers := request.headers ++ [header] } =
            .ok request' ↔ _
          rw [ih]
          constructor
          · intro ⟨headers, hmap, hrequest⟩
            refine ⟨header :: headers, by rw [hmap, List.map_cons], ?_⟩
            rw [hrequest, List.append_assoc, List.singleton_append]
          · intro ⟨headers, hmap, hrequest⟩
            obtain ⟨_, rest, rfl, hheader, hrest⟩ := List.map_eq_cons_iff.mp hmap.symm
            refine ⟨rest, hrest.symm, ?_⟩
            rw [hrequest, List.append_assoc, List.singleton_append, Option.some.inj hheader]

/-! ## One line -/

/-- A text that is one piece has no separator in it. -/
theorem notMem_of_splitOn_eq_singleton {c : Char} {text : List Char}
    (h : text.splitOn c = [text]) : c ∉ text := by
  intro hmem
  obtain ⟨before, after, htext⟩ := List.append_of_mem hmem
  have hlength := congrArg List.length h
  rw [htext, List.splitOn_append_cons_self, List.length_append, List.length_singleton] at hlength
  have hbefore := List.length_pos_of_ne_nil (List.splitOn_ne_nil c before)
  have hafter := List.length_pos_of_ne_nil (List.splitOn_ne_nil c after)
  omega

/-- A text whose first piece is all of it has no other. -/
theorem splitOn_eq_singleton_of_head {c : Char} {text : List Char} {rest : List (List Char)}
    (h : text.splitOn c = text :: rest) : rest = [] := by
  have hjoin : [c].intercalate (text.splitOn c) = text := List.intercalate_splitOn c
  rw [h] at hjoin
  by_contra hne
  rw [List.intercalate_cons_of_ne_nil hne] at hjoin
  have hlength := congrArg List.length hjoin
  rw [List.length_append, List.length_append, List.length_singleton] at hlength
  omega

/-- Texts and lists of characters. -/
theorem map_ofList_eq_iff {pieces : List (List Char)} {texts : List String} :
    pieces.map String.ofList = texts ↔ pieces = texts.map String.toList := by
  constructor
  · rintro rfl
    simp [Function.comp_def]
  · rintro rfl
    simp [Function.comp_def]

/-- A line has a header when it has one colon between two texts. -/
theorem headerOf_eq_some_iff {line : String} {header : String × String} :
    headerOf line = some header ↔ split ':' line = [header.1, header.2] := by
  unfold headerOf
  split
  · rename_i name value hsplit
    rw [hsplit]
    constructor
    · intro h
      rw [← Option.some.inj h]
    · intro h
      obtain ⟨hname, hrest⟩ := List.cons.inj h
      rw [hname, (List.cons.inj hrest).1]
  · rename_i hother
    constructor
    · intro h
      exact absurd h.symm (Option.some_ne_none _)
    · intro h
      exact absurd h (hother _ _)

/-- A header is read back from its line when its value has no colon and is not empty. -/
theorem headerOf_headerLine_iff {header : String × String} (hname : ':' ∉ header.1.toList) :
    headerOf (headerLine header) = some header ↔
      header.2 ≠ "" ∧ ':' ∉ header.2.toList := by
  have hpieces : (headerLine header).toList.splitOn ':' =
      header.1.toList :: header.2.toList.splitOn ':' := by
    unfold headerLine
    rw [String.toList_append, String.toList_append, List.append_assoc]
    exact List.splitOn_append_cons_self_of_not_mem hname _
  have hmany : ((headerLine header).toList.splitOn ':').length ≠ 1 := by
    have hpos := List.length_pos_of_ne_nil (List.splitOn_ne_nil ':' header.2.toList)
    rw [hpieces, List.length_cons]
    omega
  rw [headerOf_eq_some_iff]
  unfold split keptPieces
  rw [if_neg hmany, hpieces]
  constructor
  · intro h
    have hkept := map_ofList_eq_iff.mp h
    rw [List.map_cons, List.map_singleton] at hkept
    have hlast := List.rdropWhile_last_not (fun l : List Char => decide (l = []))
      (header.1.toList :: header.2.toList.splitOn ':') (by rw [hkept]; exact List.cons_ne_nil _ _)
    simp only [hkept] at hlast
    -- what is kept is the name and the first piece of the value
    have hstarts := List.rdropWhile_prefix (fun l : List Char => decide (l = []))
      (header.1.toList :: header.2.toList.splitOn ':')
    rw [hkept] at hstarts
    obtain ⟨rest, hrest⟩ := hstarts
    have hvalue : header.2.toList.splitOn ':' = header.2.toList :: rest :=
      (List.cons.inj hrest).2.symm
    rw [splitOn_eq_singleton_of_head hvalue] at hvalue
    exact ⟨by simpa using hlast, notMem_of_splitOn_eq_singleton hvalue⟩
  · intro ⟨hne, hvalue⟩
    have hempty : header.2.toList ≠ [] := by simpa using hne
    rw [List.splitOn_eq_singleton hvalue, List.rdropWhile_eq_self_iff.mpr (by simpa using hempty)]
    simp

/-! ## The request -/

variable {desc : HttpDesc} {env : HttpEnv} {request : HttpRequest}

/-- A new request has no headers. -/
theorem newRequest_headers (h : newRequest desc env = .ok request) : request.headers = [] := by
  unfold newRequest at h
  split at h
  · split at h
    · rw [← Except.ok.inj h]
    · split at h
      · rw [← Except.ok.inj h]
      · split at h
        · split at h
          · cases h
          · rw [← Except.ok.inj h]
        · rw [← Except.ok.inj h]
  · cases h

/-- The headers of a request are those of the lines, and each line has to be one. -/
theorem prepare_eq_ok_iff {headers : List (String × String)} {text : String}
    (htext : desc.headers = some text) (hhas : hasText text)
    (hrequest : newRequest desc env = .ok request) :
    prepare desc env = .ok { request with headers := headers } ↔
      (splitLines text).map headerOf = headers.map some := by
  have hprepare : prepare desc env = (splitLines text).foldlM addHeader request := by
    unfold prepare addHeaders
    rw [hrequest, htext]
    exact if_pos hhas
  rw [hprepare, foldlM_addHeader_eq_ok_iff, newRequest_headers hrequest]
  constructor
  · intro ⟨headers', hmap, heq⟩
    rw [hmap, (HttpRequest.mk.inj heq).2.2.1, List.nil_append]
  · intro hmap
    exact ⟨headers, hmap, rfl⟩

/-- A header's line has a colon. -/
theorem colon_mem_headerLine (header : String × String) : ':' ∈ (headerLine header).toList := by
  unfold headerLine
  rw [String.toList_append, String.toList_append]
  exact List.mem_append_left _ (List.mem_append_right _ (List.mem_singleton.mpr rfl))

theorem headerLine_ne_empty (header : String × String) : headerLine header ≠ "" := by
  intro hempty
  have hmem := colon_mem_headerLine header
  rw [hempty] at hmem
  exact List.not_mem_nil hmem

theorem hasText_encodeHeaders {headers : List (String × String)} (hne : headers ≠ []) :
    hasText (encodeHeaders headers) := by
  have hcolon : ':' ∈ (encodeHeaders headers).toList := by
    unfold encodeHeaders
    rw [String.toList_ofList]
    cases headers with
    | nil => exact absurd rfl hne
    | cons header headers =>
        have hline := colon_mem_headerLine header
        cases headers with
        | nil =>
            rw [List.map_singleton, List.intercalate_singleton]
            exact hline
        | cons next headers =>
            rw [List.map_cons, List.map_cons, List.intercalate_cons_cons]
            exact List.mem_append_left _ (List.mem_append_left _ hline)
  exact List.any_eq_true.mpr ⟨':', hcolon, rfl⟩

/-- Encoded headers are split into their lines. -/
theorem splitLines_encodeHeaders {headers : List (String × String)} (hne : headers ≠ [])
    (h : ∀ header ∈ headers, IsHeader header) :
    splitLines (encodeHeaders headers) = headers.map headerLine := by
  have hreturn : ∀ header ∈ headers, '\r' ∉ (headerLine header).toList := by
    intro header hmem hin
    unfold headerLine at hin
    rw [String.toList_append, String.toList_append, List.mem_append, List.mem_append] at hin
    rcases hin with (hname | hcolon) | hvalue
    · exact ((h header hmem).name_word _ hname).2.1 rfl
    · exact absurd hcolon (by decide)
    · exact ((h header hmem).value_line _ hvalue).1 rfl
  have hlines := splitLines_intercalate (by simpa using hne) (List.forall_mem_map.mpr hreturn)
    (List.forall_mem_map.mpr fun header _ => headerLine_ne_empty header)
  rw [List.map_map] at hlines
  exact hlines

/-- The headers of a text get to the request exactly when every value is there and has
no colon. -/
theorem prepare_encoded_iff {headers : List (String × String)} (hne : headers ≠ [])
    (h : ∀ header ∈ headers, IsHeader header) (htext : desc.headers = some (encodeHeaders headers))
    (hrequest : newRequest desc env = .ok request) :
    prepare desc env = .ok { request with headers := headers } ↔
      ∀ header ∈ headers, header.2 ≠ "" ∧ ':' ∉ header.2.toList := by
  rw [prepare_eq_ok_iff htext (hasText_encodeHeaders hne) hrequest, splitLines_encodeHeaders hne h,
    List.map_map, List.map_inj_left]
  refine forall₂_congr fun header hmem => ?_
  exact headerOf_headerLine_iff fun hcolon => ((h header hmem).name_word ':' hcolon).1 rfl

/-! ## Two headers -/

def getDesc (headers : List (String × String)) : HttpDesc where
  url := "http://www.example.com"
  method := "get"
  headers := some (encodeHeaders headers)
  body := none

/-- A server that fails; the request is made before it is asked. -/
def refusing : HttpEnv where
  validUri := true
  execute _ := .error ⟨none, none⟩
  startTime := 0
  endTime := 0
  close := .ok ()
  device := ⟨0, some []⟩

/-- A GET request has its URI and nothing else. -/
theorem newRequest_getDesc (headers : List (String × String)) (huri : env.validUri = true) :
    newRequest (getDesc headers) env = .ok ⟨"GET", "http://www.example.com", [], none⟩ := by
  have hhead : ¬ sameIgnoringCase (getDesc headers).method "head" := by
    change ¬ sameIgnoringCase "get" "head"
    decide +kernel
  have hget : sameIgnoringCase (getDesc headers).method "get" := by
    change sameIgnoringCase "get" "get"
    decide +kernel
  unfold newRequest
  rw [if_pos huri, if_neg hhead, if_pos hget]
  rfl

/-- The test of a header, character by character. -/
def isHeader (header : String × String) : Bool :=
  header.1 ≠ "" &&
    header.1.toList.all (fun c => c ≠ ':' && c ≠ '\r' && c ≠ '\n' && !c.isWhitespace) &&
    header.2.toList.all (fun c => c ≠ '\r' && c ≠ '\n') &&
    header.2.toList.head?.all (fun c => !c.isWhitespace) &&
    header.2.toList.getLast?.all (fun c => !c.isWhitespace)

/-- Whether a text is a header can be computed. -/
theorem isHeader_iff {header : String × String} : isHeader header ↔ IsHeader header := by
  unfold isHeader
  simp only [Bool.and_eq_true, List.all_eq_true, Option.all_eq_true, decide_eq_true_eq,
    Bool.not_eq_true', ← Bool.not_eq_true]
  constructor
  · rintro ⟨⟨⟨⟨hname, hword⟩, hline⟩, hhead⟩, hlast⟩
    refine ⟨hname, fun c hc => ?_, hline, hhead, hlast⟩
    obtain ⟨⟨⟨hcolon, hreturn⟩, hfeed⟩, hspace⟩ := hword c hc
    exact ⟨hcolon, hreturn, hfeed, hspace⟩
  · rintro ⟨hname, hword, hline, hhead, hlast⟩
    refine ⟨⟨⟨⟨hname, fun c hc => ?_⟩, hline⟩, hhead⟩, hlast⟩
    obtain ⟨hcolon, hreturn, hfeed, hspace⟩ := hword c hc
    exact ⟨⟨⟨hcolon, hreturn⟩, hfeed⟩, hspace⟩

theorem isHeader_accept : ∀ header ∈ [("Accept", "text/html"), ("Host", "a")], IsHeader header := by
  intro header hmem
  rw [List.mem_cons, List.mem_singleton] at hmem
  rcases hmem with rfl | rfl
  · exact isHeader_iff.mp (by decide +kernel)
  · exact isHeader_iff.mp (by decide +kernel)

theorem isHeader_referer : IsHeader ("Referer", "http://a/") := isHeader_iff.mp (by decide +kernel)

theorem prepare_encoded_iff_accept :
    prepare (getDesc [("Accept", "text/html"), ("Host", "a")]) refusing =
      .ok ⟨"GET", "http://www.example.com", [("Accept", "text/html"), ("Host", "a")], none⟩ :=
  have hvalues : ∀ header ∈ [("Accept", "text/html"), ("Host", "a")],
      header.2 ≠ "" ∧ ':' ∉ header.2.toList := by decide
  (prepare_encoded_iff (List.cons_ne_nil _ _) isHeader_accept rfl (newRequest_getDesc _ rfl)).mpr
    hvalues

/-- A url is cut at its colon. -/
theorem prepare_loses_referer :
    ¬ ∀ (desc : HttpDesc) (env : HttpEnv) (request : HttpRequest)
      (headers : List (String × String)), headers ≠ [] → (∀ header ∈ headers, IsHeader header) →
      desc.headers = some (encodeHeaders headers) → newRequest desc env = .ok request →
      prepare desc env = .ok { request with headers := headers } := by
  intro hall
  have hreferer := hall (getDesc [("Referer", "http://a/")]) refusing
    ⟨"GET", "http://www.example.com", [], none⟩ [("Referer", "http://a/")] (List.cons_ne_nil _ _)
    (fun header hmem => List.mem_singleton.mp hmem ▸ isHeader_referer) rfl
      (newRequest_getDesc _ rfl)
  rw [prepare_eq_ok_iff rfl (hasText_encodeHeaders (List.cons_ne_nil _ _))
    (newRequest_getDesc _ rfl)]
    at hreferer
  exact absurd hreferer (by decide +kernel)

end HttpTask

end MobiPerf.Measurements
