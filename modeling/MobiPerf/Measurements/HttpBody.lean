import MobiPerf.Lib.JsonString
import MobiPerf.Measurements.HttpHeaders

/-!
# Measurements.HttpBody — the body that is reported

A download counts the bytes it reads and keeps the first of them in a buffer, which is
reported as a Base64 text. The buffer is handed over whole.

* `decodeBase64_base64`: a text decodes to the bytes it was made of;
* `HttpTask.readBody_kept`: however the body is cut into reads, all of it is counted
  and its first bytes are kept;
* `HttpTask.reported_body_iff`: the reported body is the body when it fills the buffer.
-/

namespace MobiPerf.Measurements

open Lib Scheduler

/-! ## Base64 -/

/-- The six bits of a letter. -/
def letterValue (c : Char) : Option ℕ :=
  if 'A' ≤ c ∧ c ≤ 'Z' then some (c.toNat - 65)
  else if 'a' ≤ c ∧ c ≤ 'z' then some (c.toNat - 71)
  else if '0' ≤ c ∧ c ≤ '9' then some (c.toNat + 4)
  else if c = '+' then some 62
  else if c = '/' then some 63
  else none

/-- `k` bytes of the number that some letters make, without its lowest `shift` bits. -/
def lettersBytes (k shift : ℕ) (letters : List Char) : Option (List UInt8) := do
  let values ← letters.mapM letterValue
  let n := values.foldl (fun r d => r * 64 + d) 0 / 2 ^ shift
  some ((digits 256 k n).map UInt8.ofNat)

/-- The bytes of groups of four letters; the last group may be padded. -/
def decodeLetters : List Char → Option (List UInt8)
  | [] => some []
  | [a, b, '=', '='] => lettersBytes 1 4 [a, b]
  | [a, b, c, '='] => lettersBytes 2 2 [a, b, c]
  | a :: b :: c :: d :: rest => do
    let bytes ← lettersBytes 3 0 [a, b, c, d]
    let more ← decodeLetters rest
    some (bytes ++ more)
  | _ => none

/-- `Base64.decode(text, Base64.DEFAULT)`: what is no letter and no padding, such as
the end of a line, is passed over. -/
def decodeBase64 (text : String) : Option (List UInt8) :=
  decodeLetters (text.toList.filter fun c => (letterValue c).isSome || c = '=')

/-- A letter has its value. -/
theorem letterValue_base64Letter {n : ℕ} (h : n < 64) : letterValue (base64Letter n) = some n := by
  have hall : ∀ n < 64, letterValue (base64Letter n) = some n := by decide
  exact hall n h

theorem base64Letter_ne_pad {n : ℕ} (h : n < 64) : base64Letter n ≠ '=' := by
  have hall : ∀ n < 64, base64Letter n ≠ '=' := by decide
  exact hall n h

theorem mapM_letterValue {values : List ℕ} (h : ∀ n ∈ values, n < 64) :
    (values.map base64Letter).mapM letterValue = some values := by
  induction values with
  | nil => rfl
  | cons n values ih =>
      rw [List.map_cons, List.mapM_cons, letterValue_base64Letter (h n List.mem_cons_self),
        ih fun m hm => h m (List.mem_cons_of_mem n hm)]
      rfl

/-- Letters are the digits of a number to the base 64, and bytes are its digits to the
base 256. -/
theorem lettersBytes_digits (k shift j n : ℕ) :
    lettersBytes k shift ((digits 64 j n).map base64Letter) =
      some ((digits 256 k (n % 64 ^ j / 2 ^ shift)).map UInt8.ofNat) := by
  unfold lettersBytes
  rw [mapM_letterValue fun d hd => digits_lt (by decide) hd]
  change some ((digits 256 k ((digits 64 j n).foldl (fun r d => r * 64 + d) 0 / 2 ^ shift)).map
    UInt8.ofNat) = _
  rw [foldl_digits, Nat.zero_mul, Nat.zero_add]

/-- The digits of bytes in the radix 256 are the bytes. -/
theorem digits_bytes (bytes : List UInt8) :
    (digits 256 bytes.length (bytes.foldl (fun r b => r * 256 + b.toNat) 0)).map UInt8.ofNat =
      bytes := by
  induction bytes using List.reverseRecOn with
  | nil => rfl
  | append_singleton bytes b ih =>
      have hb := b.toNat_lt
      rw [List.length_append, List.length_singleton, List.foldl_append, List.foldl_cons,
        List.foldl_nil, digits, List.map_append, List.map_singleton]
      generalize bytes.foldl (fun r b => r * 256 + b.toNat) 0 = r at ih ⊢
      have hdiv : (r * 256 + b.toNat) / 256 = r := by omega
      have hmod : (r * 256 + b.toNat) % 256 = b.toNat := by omega
      rw [hdiv, hmod, ih, UInt8.ofNat_toNat]

/-- A group that is not padded. -/
theorem decodeLetters_group (n : ℕ) (rest : List Char) :
    decodeLetters ((digits 64 4 n).map base64Letter ++ rest) =
      (lettersBytes 3 0 ((digits 64 4 n).map base64Letter)).bind fun bytes =>
        (decodeLetters rest).bind fun more => some (bytes ++ more) := by
  have hlast : base64Letter (n % 64) ≠ '=' := base64Letter_ne_pad (Nat.mod_lt n (by decide))
  change decodeLetters (base64Letter (n / 64 / 64 / 64 % 64) :: base64Letter (n / 64 / 64 % 64) ::
    base64Letter (n / 64 % 64) :: base64Letter (n % 64) :: rest) = _
  rw [decodeLetters]
  · rfl
  · exact fun _ hpad => absurd hpad hlast
  · exact fun hpad => absurd hpad hlast

/-- What is encoded can be decoded. -/
theorem decodeLetters_base64Letters (bytes : List UInt8) :
    decodeLetters (base64Letters bytes) = some bytes := by
  fun_induction base64Letters bytes with
  -- three bytes are four letters
  | case1 a b c bytes n ih =>
      have hbytes := digits_bytes [a, b, c]
      have hn : ([a, b, c].foldl (fun r b => r * 256 + b.toNat) 0) = n % 64 ^ 4 / 2 ^ 0 := by
        have ha := a.toNat_lt
        have hb := b.toNat_lt
        have hc := c.toNat_lt
        simp only [List.foldl_cons, List.foldl_nil, n]
        omega
      rw [hn] at hbytes
      rw [decodeLetters_group, lettersBytes_digits, ih]
      exact congrArg (fun group => some (group ++ bytes)) hbytes
  -- two bytes are three letters and one pad
  | case2 a b =>
      have hbytes := digits_bytes [a, b]
      have hn : ([a, b].foldl (fun r b => r * 256 + b.toNat) 0) =
          (a.toNat * 2 ^ 10 + b.toNat * 4) % 64 ^ 3 / 2 ^ 2 := by
        have ha := a.toNat_lt
        have hb := b.toNat_lt
        simp only [List.foldl_cons, List.foldl_nil]
        omega
      have hlast := base64Letter_ne_pad
        (Nat.mod_lt (a.toNat * 2 ^ 10 + b.toNat * 4) (by decide : 64 > 0))
      rw [hn] at hbytes
      change decodeLetters [_, _, base64Letter ((a.toNat * 2 ^ 10 + b.toNat * 4) % 64), '='] = _
      rw [decodeLetters]
      · exact (lettersBytes_digits 2 2 3 _).trans (congrArg some hbytes)
      · exact hlast
  -- one byte is two letters and two pads
  | case3 a =>
      have hbytes := digits_bytes [a]
      have hn : ([a].foldl (fun r b => r * 256 + b.toNat) 0) =
          (a.toNat * 2 ^ 4) % 64 ^ 2 / 2 ^ 4 := by
        have ha := a.toNat_lt
        simp only [List.foldl_cons, List.foldl_nil]
        omega
      rw [hn] at hbytes
      exact (lettersBytes_digits 1 4 2 _).trans (congrArg some hbytes)
  | case4 => rfl

/-! ### Lines -/

/-- Folding adds line breaks only. -/
theorem filter_foldLines {p : Char → Bool} (hp : p '\n' = false) (column : ℕ) (cs : List Char) :
    (foldLines column cs).filter p = cs.filter p := by
  have hskip : ∀ l, ('\n' :: l).filter p = l.filter p := fun l =>
    List.filter_cons_of_neg (by rw [hp]; exact Bool.false_ne_true)
  induction cs generalizing column with
  | nil =>
      unfold foldLines
      split
      · rfl
      · exact hskip []
  | cons c cs ih =>
      unfold foldLines
      split
      · rw [List.filter_cons, hskip, ih, List.filter_cons]
      · rw [List.filter_cons, ih, List.filter_cons]

/-- An encoded text has letters and padding. -/
theorem mem_base64Letters {bytes : List UInt8} {c : Char} (h : c ∈ base64Letters bytes) :
    (∃ n < 64, c = base64Letter n) ∨ c = '=' := by
  have hdigits : ∀ {j n : ℕ}, c ∈ (digits 64 j n).map base64Letter →
      ∃ n < 64, c = base64Letter n := by
    intro j n hc
    obtain ⟨d, hd, hdc⟩ := List.mem_map.mp hc
    exact ⟨d, digits_lt (by decide) hd, hdc.symm⟩
  fun_induction base64Letters bytes with
  | case1 a b c' bytes n ih =>
      rcases List.mem_append.mp h with hc | hc
      · exact .inl (hdigits hc)
      · exact ih hc
  | case2 a b =>
      rcases List.mem_append.mp h with hc | hc
      · exact .inl (hdigits hc)
      · exact .inr (List.mem_singleton.mp hc)
  | case3 a =>
      rcases List.mem_append.mp h with hc | hc
      · exact .inl (hdigits hc)
      · rw [List.mem_cons, List.mem_singleton, or_self] at hc
        exact .inr hc
  | case4 => cases h

/-- So the bytes come back from the folded text. -/
theorem decodeBase64_base64 (bytes : List UInt8) : decodeBase64 (base64 bytes) = some bytes := by
  have hletters : (base64Letters bytes).filter (fun c => (letterValue c).isSome || c = '=') =
      base64Letters bytes := by
    rw [List.filter_eq_self]
    intro c hc
    rcases mem_base64Letters hc with ⟨n, hn, rfl⟩ | rfl
    · rw [letterValue_base64Letter hn]
      rfl
    · rfl
  unfold decodeBase64 base64
  rw [String.toList_ofList, filter_foldLines rfl, hletters, decodeLetters_base64Letters]

namespace HttpTask

/-! ## Reading -/

/-- The bytes of a list of reads. -/
def received (items : List (Chunk 1024)) : List UInt8 := (items.map Subtype.val).flatten

/-- What is kept of the bytes so far. -/
def Download.of (bytes : List UInt8) : Download where
  totalBodyLen := bytes.length
  body := bytes.take maxBodySizeToUpload

/-- A chunk is put behind the bytes that were read. -/
theorem Download.of_add (bytes chunk : List UInt8) :
    (Download.of bytes).add chunk = Download.of (bytes ++ chunk) := by
  have hroom : maxBodySizeToUpload - (bytes.take maxBodySizeToUpload).length =
      maxBodySizeToUpload - bytes.length := by
    rw [List.length_take]
    omega
  unfold add of
  rw [hroom, List.take_append, List.length_append, Nat.cast_add]

/-- While the body is within the size of a response no read is refused, and where one
read ends and the next begins is not seen. -/
theorem readBody_kept (bytes : List UInt8) (items : List (Chunk 1024))
    (h : (bytes ++ received items).length ≤ maxHttpResponseSize) :
    readBody items none (Download.of bytes) = .ok (Download.of (bytes ++ received items)) := by
  induction items generalizing bytes with
  | nil => rw [received, List.map_nil, List.flatten_nil, List.append_nil, readBody]
  | cons chunk items ih =>
      have hreceived : received (chunk :: items) = chunk.val ++ received items := rfl
      rw [hreceived, ← List.append_assoc] at h ⊢
      have hmore : (Download.of bytes).totalBodyLen ≤ maxHttpResponseSize := by
        rw [List.length_append, List.length_append] at h
        unfold Download.of
        dsimp only
        omega
      rw [readBody, if_pos hmore, Download.of_add, ih _ h]

/-! ## Reporting -/

variable {J : Platform} {desc : HttpDesc} {env : HttpEnv} {body : List UInt8}

/-- The request is answered with status 200, and the reads of the answer's stream give
the body, to its end. -/
structure Delivers (desc : HttpDesc) (env : HttpEnv) (body : List UInt8) : Prop where
  delivered : ∃ request response entity input,
    prepare desc env = .ok request ∧ env.execute request = .ok response ∧
      response.statusCode = some 200 ∧ response.entity = some entity ∧
      entity.getContent = .ok input ∧ input.failure = none ∧ received input.items = body

/-- The body that is read goes into the result. -/
theorem exists_download_eq (J : Platform) (h : Delivers desc env body)
    (hlen : body.length ≤ maxHttpResponseSize) : ∃ response, success response = true ∧
      call J desc env =
        catchIo (failed J) (report J desc env response (Download.of body)) := by
  obtain ⟨request, response, entity, input, hrequest, hexecute, hstatus, hentity, hcontent, hend,
    hbody⟩ := h.delivered
  have hkept := readBody_kept [] input.items (by rw [List.nil_append, hbody]; exact hlen)
  rw [List.nil_append, hbody] at hkept
  have hread : readBody input.items none ⟨0, []⟩ = .ok (Download.of body) := hkept
  have hsuccess : success response = true := decide_eq_true hstatus
  have hdownload : download J desc env = report J desc env response (Download.of body) := by
    unfold download receive
    rw [hrequest]
    simp only [bind, Except.bind, hexecute, hentity, hcontent, hend, hread]
  exact ⟨response, hsuccess, by rw [call_eq, hdownload]⟩

/-- A body that is delivered is reported with its length and its text. -/
theorem call_of_delivers (hcells : env.device.neighboringCellInfo.isSome)
    (h : Delivers desc env body) (hlen : body.length ≤ maxHttpResponseSize) :
    ∃ r, call J desc env = .ok r ∧ r.values.get "body_len" = some (toString (body.length : ℤ)) ∧
      r.values.get "body" = some (J.quote (base64 (bodyArray (Download.of body)))) := by
  obtain ⟨response, hsuccess, hcall⟩ := exists_download_eq J h hlen
  rw [hcall, report_of_success hcells hsuccess]
  exact ⟨_, rfl, rfl, rfl⟩

/-- Without a list of the cells around the phone there is no result. -/
theorem cells_of_call (h : Delivers desc env body) (hlen : body.length ≤ maxHttpResponseSize)
    {r : MeasurementResult} (hcall : call J desc env = .ok r) :
    env.device.neighboringCellInfo.isSome := by
  obtain ⟨response, -, heq⟩ := exists_download_eq J h hlen
  by_contra hcells
  rw [heq, report_of_no_cells hcells] at hcall
  cases hcall

/-- What the reported text decodes to: the first bytes of the body, and zeroes for the
rest of the buffer. -/
theorem bodyArray_of (body : List UInt8) : bodyArray (Download.of body) =
    body.take maxBodySizeToUpload ++ List.replicate (maxBodySizeToUpload - body.length) 0 := by
  have hroom : maxBodySizeToUpload - (body.take maxBodySizeToUpload).length =
      maxBodySizeToUpload - body.length := by
    rw [List.length_take]
    omega
  unfold bodyArray Download.of
  rw [hroom]

/-- What is reported, by a JSON library that reads back its strings. -/
theorem decoded_of_delivers {unquote : String → Option String}
    (hunquote : ∀ s, unquote (J.quote s) = some s)
    (hcells : env.device.neighboringCellInfo.isSome) (h : Delivers desc env body)
    (hlen : body.length ≤ maxHttpResponseSize) :
    ∃ r, call J desc env = .ok r ∧ r.values.get "body_len" = some (toString (body.length : ℤ)) ∧
      ((r.values.get "body").bind unquote).bind decodeBase64 =
        some (body.take maxBodySizeToUpload ++
          List.replicate (maxBodySizeToUpload - body.length) 0) := by
  obtain ⟨r, hcall, hbodyLen, hbody⟩ := call_of_delivers (J := J) hcells h hlen
  refine ⟨r, hcall, hbodyLen, ?_⟩
  rw [hbody, Option.bind_some, hunquote, Option.bind_some, decodeBase64_base64, bodyArray_of]

/-- There is a result that tells the length of the body and its first bytes exactly when
they fill the buffer, on a phone with a list of the cells around it. -/
theorem reported_body_iff {unquote : String → Option String}
    (hunquote : ∀ s, unquote (J.quote s) = some s) (h : Delivers desc env body)
    (hlen : body.length ≤ maxHttpResponseSize) :
    (∃ r, call J desc env = .ok r ∧ r.values.get "body_len" = some (toString (body.length : ℤ)) ∧
        ((r.values.get "body").bind unquote).bind decodeBase64 =
          some (body.take (min maxBodySizeToUpload body.length))) ↔
      env.device.neighboringCellInfo.isSome ∧ maxBodySizeToUpload ≤ body.length := by
  constructor
  · intro ⟨r', hcall', _, hreported⟩
    have hcells := cells_of_call h hlen hcall'
    obtain ⟨r, hcall, -, hdecoded⟩ := decoded_of_delivers hunquote hcells h hlen
    refine ⟨hcells, ?_⟩
    rw [Except.ok.inj (hcall'.symm.trans hcall), hdecoded] at hreported
    have hlength := congrArg List.length (Option.some.inj hreported)
    rw [List.length_append, List.length_replicate, List.length_take, List.length_take] at hlength
    omega
  · intro ⟨hcells, hfull⟩
    obtain ⟨r, hcall, hbodyLen, hdecoded⟩ := decoded_of_delivers hunquote hcells h hlen
    refine ⟨r, hcall, hbodyLen, ?_⟩
    rw [hdecoded, Nat.sub_eq_zero_of_le hfull, min_eq_left hfull, List.replicate_zero,
      List.append_nil]

/-! ## Two bodies -/

/-- A platform whose JSON library escapes what has to be escaped. -/
def escaping : Platform :=
  { Platform.latin with
    quote := JsonString.quote
    quote_number := by
      intro s hs
      apply JsonString.quote_of_plain
      intro c hc hescaped
      have hnumber := hs c hc
      simp only [JsonString.escaped, List.mem_cons, List.not_mem_nil, or_false] at hescaped
      rcases hescaped with rfl | rfl | rfl | rfl | rfl | rfl | rfl | rfl | rfl <;>
        exact absurd hnumber (by decide) }

/-- A server that delivers a body in the given reads. -/
def delivering (items : List (Chunk 1024)) : HttpEnv where
  validUri := true
  execute _ := .ok ⟨some 200, some ⟨.ok ⟨items, none⟩⟩, some []⟩
  startTime := 0
  endTime := 1000
  close := .ok ()
  device := ⟨0, some []⟩

/-- Such a client delivers what it was given. -/
theorem delivering_delivers (items : List (Chunk 1024)) :
    Delivers (getDesc []) (delivering items) (received items) := by
  have hrequest : prepare (getDesc []) (delivering items) =
      .ok ⟨"GET", "http://www.example.com", [], none⟩ := by
    unfold prepare
    rw [newRequest_getDesc [] rfl]
    rfl
  exact ⟨_, _, _, _, hrequest, rfl, rfl, rfl, rfl, rfl, rfl⟩

/-- One read that fills the buffer. -/
def fullRead : Chunk 1024 :=
  ⟨List.replicate 1024 7,
    List.ne_nil_of_length_pos (by rw [List.length_replicate]; decide), List.length_replicate.le⟩

/-- A full read has a whole buffer. -/
theorem length_received_fullRead : (received [fullRead]).length = 1024 := by
  rw [received, List.map_singleton, List.flatten_singleton]
  exact List.length_replicate

theorem reported_body_iff_full :
    ∃ r, call escaping (getDesc []) (delivering [fullRead]) = .ok r ∧
      r.values.get "body_len" = some (toString ((received [fullRead]).length : ℤ)) ∧
      ((r.values.get "body").bind JsonString.unquote).bind decodeBase64 =
        some ((received [fullRead]).take (min maxBodySizeToUpload (received [fullRead]).length)) :=
  (reported_body_iff JsonString.unquote_quote (delivering_delivers [fullRead])
    (by rw [length_received_fullRead]; decide)).mpr ⟨rfl, length_received_fullRead.ge⟩

/-- A body of three bytes comes out with 1021 zeroes behind them. -/
theorem reported_body_has_zeroes :
    ¬ ∀ (J : Platform) (unquote : String → Option String) (desc : HttpDesc) (env : HttpEnv)
      (body : List UInt8), (∀ s, unquote (J.quote s) = some s) → Delivers desc env body →
      body.length ≤ maxHttpResponseSize →
      ∃ r, call J desc env = .ok r ∧ r.values.get "body_len" = some (toString (body.length : ℤ)) ∧
        ((r.values.get "body").bind unquote).bind decodeBase64 =
          some (body.take (min maxBodySizeToUpload body.length)) := by
  intro hall
  have hdelivers := delivering_delivers [⟨[1, 2, 3], by decide⟩]
  obtain ⟨r, hcall, -, hbody⟩ := hall escaping JsonString.unquote _ _ _ JsonString.unquote_quote
    hdelivers (by decide)
  obtain ⟨r', hcall', -, hbody'⟩ := decoded_of_delivers (J := escaping) JsonString.unquote_quote
    rfl hdelivers (by decide)
  rw [Except.ok.inj (hcall.symm.trans hcall'), hbody'] at hbody
  have hlength := congrArg List.length (Option.some.inj hbody)
  rw [List.length_append, List.length_replicate, List.length_take, List.length_take] at hlength
  have hthree : (received [⟨[1, 2, 3], by decide⟩]).length = 3 := rfl
  have hbuffer : maxBodySizeToUpload = 1024 := rfl
  omega

end HttpTask

end MobiPerf.Measurements
