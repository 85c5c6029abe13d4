import MobiPerf.Measurements.Result

/-!
# Measurements.Http — the download

The request that is built of the description, the response's body as it is read,
and the result. The HTTP library answers a request as it likes: `execute` is any
function of the request.

* `HttpTask.contained_iff`: no other exception leaves the call when the url is
  one, a `post` has a body, a response has an entity, the log takes the message of
  a failure, and a body that is read finds a list of the cells around the phone;
* `HttpTask.shown_iff`: a result can be shown when the download took some time,
  and the time and the length of the headers are an `int`.
-/

namespace MobiPerf.Measurements

open Lib Scheduler

/-! ## The environment -/

structure HttpRequest where
  method : String
  uri : String
  headers : List (String × String)
  entity : Option String
deriving DecidableEq, Repr

/-- The content of an entity is a stream, or a failure to open one. -/
structure HttpEntity where
  getContent : Except IoFailure (Input (Chunk 1024))

structure HttpResponse where
  statusCode : Option ℤ
  entity : Option HttpEntity
  allHeaders : Option (List String)

/-- `validUri`: whether the HTTP library accepts the url. The clock is read
before the request and after the body; `close` is what closing the body's stream
comes to. -/
structure HttpEnv where
  validUri : Bool
  execute : HttpRequest → Except IoFailure HttpResponse
  startTime : ℤ
  endTime : ℤ
  close : Except IoFailure Unit
  device : Device

namespace HttpTask

def maxHttpResponseSize : ℤ := 1024 * 1024

def maxBodySizeToUpload : ℕ := 1024

def defaultStatusCode : ℤ := 0

/-! ## The request -/

/-- `Character.toLowerCase(Character.toUpperCase(c))`. Of the letters beyond ASCII
the two further forms of the i, the long s and the sign of the kelvin become letters
within it; the others stay beyond, and stand for themselves here. -/
def foldCase (c : Char) : Char :=
  if c = Char.ofNat 0x130 ∨ c = Char.ofNat 0x131 then 'i'
  else if c = Char.ofNat 0x17F then 's'
  else if c = Char.ofNat 0x212A then 'k'
  else c.toLower

/-- `s.compareToIgnoreCase(word) == 0`, for a word of ASCII letters. -/
def sameIgnoringCase (s word : String) : Bool :=
  s.toList.map foldCase = word.toList.map foldCase

example : sameIgnoringCase "Po\u017ft" "post" := by decide +kernel

/-- A request of the description's method, `get` when it is an unknown one. -/
def newRequest (desc : HttpDesc) (env : HttpEnv) : Except JavaException HttpRequest :=
  if env.validUri then
    if sameIgnoringCase desc.method "head" then .ok ⟨"HEAD", desc.url, [], none⟩
    else if sameIgnoringCase desc.method "get" then .ok ⟨"GET", desc.url, [], none⟩
    else if sameIgnoringCase desc.method "post" then
      match desc.body with
      | none => .error (.illegalArgument "Source string may not be null")
      | some body => .ok ⟨"POST", desc.url, [], some body⟩
    else .ok ⟨"GET", desc.url, [], none⟩
  else .error (.illegalArgument "Illegal character in the url")

def addHeader (request : HttpRequest) (headerLine : String) : Except JavaException HttpRequest :=
  match split ':' headerLine with
  | [name, value] => .ok { request with headers := request.headers ++ [(name, value)] }
  | _ => .error (.measurementError ("Incorrect header line: " ++ headerLine))

def addHeaders (headers : Option String) (request : HttpRequest) :
    Except JavaException HttpRequest :=
  match headers with
  | none => .ok request
  | some headers =>
    if hasText headers then (splitLines headers).foldlM addHeader request else .ok request

/-! ## The response -/

/-- What the loop over the body keeps: the bytes read, and the first of them. -/
structure Download where
  totalBodyLen : ℤ
  body : List UInt8
deriving DecidableEq, Repr

def Download.add (st : Download) (bytes : List UInt8) : Download where
  totalBodyLen := st.totalBodyLen + bytes.length
  body := st.body ++ bytes.take (maxBodySizeToUpload - st.body.length)

/-- Each round reads before it looks at what it has: a stream that fails is met
even when enough was read. -/
def readBody : List (Chunk 1024) → Option IoFailure → Download → Except JavaException Download
  | [], none, st => .ok st
  | [], some failure, _ => .error (.io failure)
  | chunk :: rest, failure, st =>
    if st.totalBodyLen ≤ maxHttpResponseSize then readBody rest failure (st.add chunk.val)
    else .ok st

/-- The bytes of some chunks. -/
def bodyLen (items : List (Chunk 1024)) : ℤ :=
  ((items.map fun chunk => chunk.val.length).sum : ℕ)

def headersLen (response : HttpResponse) : ℤ :=
  ((response.allHeaders.getD []).map String.length).sum

def headerText (response : HttpResponse) : Option String :=
  response.allHeaders.map fun headers => String.join (headers.map (· ++ "\r\n"))

/-- The status of a response; one without a status line counts as failed. -/
def statusCode (response : HttpResponse) : ℤ := response.statusCode.getD defaultStatusCode

def success (response : HttpResponse) : Bool := response.statusCode = some 200

def duration (env : HttpEnv) : ℤ := toLong (env.endTime - env.startTime)

/-- The buffer of the body is full length, zeroes behind what was read. -/
def bodyArray (st : Download) : List UInt8 :=
  st.body ++ List.replicate (maxBodySizeToUpload - st.body.length) 0

def report (J : Platform) (desc : HttpDesc) (env : HttpEnv) (response : HttpResponse)
    (st : Download) : Except JavaException MeasurementResult := do
  let result ← newResult env.device .http (success response) (.http desc)
  let result ← result.addResult J "code" (.whole (statusCode response))
  if success response then do
    let result ← result.addResult J "time_ms" (.whole (duration env))
    let result ← result.addResult J "headers_len" (.whole (headersLen response))
    let result ← result.addResult J "body_len" (.whole st.totalBodyLen)
    let result ← result.addResult J "headers" (.string (headerText response))
    result.addResult J "body" (.string (some (base64 (bodyArray st))))
  else .ok result

/-! ## The call -/

/-- What is done with a response: its entity is asked for its length before it
is compared with `null`. -/
def receive (J : Platform) (desc : HttpDesc) (env : HttpEnv) (response : HttpResponse) :
    Except JavaException MeasurementResult :=
  match response.entity with
  | none => .error .nullPointer
  | some entity =>
    match entity.getContent with
    | .error failure => .error (.io failure)
    | .ok input => do
      let st ← readBody input.items input.failure ⟨0, []⟩
      report J desc env response st

def prepare (desc : HttpDesc) (env : HttpEnv) : Except JavaException HttpRequest := do
  let request ← newRequest desc env
  addHeaders desc.headers request

def download (J : Platform) (desc : HttpDesc) (env : HttpEnv) :
    Except JavaException MeasurementResult := do
  let request ← prepare desc env
  match env.execute request with
  | .error failure => .error (.io failure)
  | .ok response => receive J desc env response

/-- The stream is closed behind the download, and what that comes to is only
logged. -/
def close (env : HttpEnv) : Except JavaException Unit :=
  match env.close with
  | .ok () => .ok ()
  | .error _ => .ok ()

/-- What a failure of the download is reported as, once it is logged. -/
def failed (J : Platform) (failure : IoFailure) : Except JavaException MeasurementResult := do
  J.logError failure.message
  .error (.measurementError ("Cannot get result from HTTP measurement because " ++
    failure.message.getD "null" ++ "\n"))

def call (J : Platform) (desc : HttpDesc) (env : HttpEnv) :
    Except JavaException MeasurementResult :=
  tryFinally (catchIo (failed J) (download J desc env)) (close env)

/-! ## Exceptions -/

variable {J : Platform} {desc : HttpDesc} {env : HttpEnv}

/-- The call reports an I/O failure as a failed measurement. -/
theorem call_eq : call J desc env = catchIo (failed J) (download J desc env) := by
  unfold call close
  rcases env.close with failure | _
  · rfl
  · rfl

/-- A header line throws what is expected. -/
theorem addHeader_failsOnly {request : HttpRequest} {line : String} :
    FailsOnly JavaException.Expected (addHeader request line) := by
  unfold addHeader
  split
  · exact failsOnly_ok
  · exact failsOnly_error.mpr (Or.inl rfl)

/-- Header lines cause no I/O failure. -/
theorem foldlM_addHeader_ne_io {lines : List String} {request : HttpRequest} {f : IoFailure} :
    lines.foldlM addHeader request ≠ .error (.io f) := by
  induction lines generalizing request with
  | nil => simp [pure, Except.pure]
  | cons line lines ih =>
      rw [List.foldlM_cons]
      intro h
      rcases except_bind_eq_error.mp h with h | ⟨request, -, h⟩
      · unfold addHeader at h
        split at h
        · cases h
        · cases h
      · exact ih h

theorem addHeaders_failsOnly {headers : Option String} {request : HttpRequest} :
    FailsOnly JavaException.Expected (addHeaders headers request) := by
  unfold addHeaders
  split
  · exact failsOnly_ok
  · split
    · exact failsOnly_foldlM fun _ _ => addHeader_failsOnly
    · exact failsOnly_ok

/-- Reading the body throws what is expected. -/
theorem readBody_failsOnly {items : List (Chunk 1024)} {failure : Option IoFailure}
    {st : Download} :
    FailsOnly JavaException.Expected (readBody items failure st) := by
  induction items generalizing st with
  | nil =>
      cases failure with
      | none => exact failsOnly_ok
      | some failure => exact failsOnly_error.mpr (Or.inr rfl)
  | cons chunk rest ih =>
      unfold readBody
      split
      · exact ih
      · exact failsOnly_ok

/-- What is reported of a response that is no success. -/
theorem report_of_failure (hcells : env.device.neighboringCellInfo.isSome)
    {response : HttpResponse} {st : Download} (h : success response = false) :
    report J desc env response st = .ok {
      type := .http
      timestamp := env.device.timestamp
      success := success response
      parameters := .http desc
      values := [("code", toString (statusCode response))] } := by
  unfold report
  rw [newResult_of_cells hcells]
  simp only [h]
  rfl

/-- What is reported of a success. -/
theorem report_of_success (hcells : env.device.neighboringCellInfo.isSome)
    {response : HttpResponse} {st : Download} (h : success response = true) :
    report J desc env response st = .ok {
      type := .http
      timestamp := env.device.timestamp
      success := success response
      parameters := .http desc
      values := [
        ("body", J.quote (base64 (bodyArray st))),
        ("headers", J.stringText (headerText response)),
        ("body_len", toString st.totalBodyLen),
        ("headers_len", toString (headersLen response)),
        ("time_ms", toString (duration env)),
        ("code", toString (statusCode response))] } := by
  unfold report
  rw [newResult_of_cells hcells]
  simp only [h]
  rfl

variable (J desc) in
/-- With the neighbouring cells there is a report. -/
theorem exists_report (hcells : env.device.neighboringCellInfo.isSome) (response : HttpResponse)
    (st : Download) : ∃ r, report J desc env response st = .ok r := by
  cases h : success response with
  | false => exact ⟨_, report_of_failure hcells h⟩
  | true => exact ⟨_, report_of_success hcells h⟩

/-- Without them there is none. -/
theorem report_of_no_cells (hcells : ¬ env.device.neighboringCellInfo.isSome)
    (response : HttpResponse) (st : Download) :
    report J desc env response st = .error .nullPointer := by
  unfold report
  rw [newResult_of_no_cells hcells]
  rfl

/-- So the report throws nothing else exactly when they are known. -/
theorem report_failsOnly_iff {response : HttpResponse} {st : Download} :
    FailsOnly JavaException.Expected (report J desc env response st) ↔
      env.device.neighboringCellInfo.isSome := by
  by_cases hcells : env.device.neighboringCellInfo.isSome
  · obtain ⟨r, hr⟩ := exists_report J desc hcells response st
    rw [hr]
    exact iff_of_true failsOnly_ok hcells
  · rw [report_of_no_cells hcells, failsOnly_error]
    simp [JavaException.Expected, JavaException.isIo, JavaException.isMeasurementError, hcells]

theorem report_ne_io {response : HttpResponse} {st : Download} {f : IoFailure} :
    report J desc env response st ≠ .error (.io f) := by
  by_cases hcells : env.device.neighboringCellInfo.isSome
  · obtain ⟨r, hr⟩ := exists_report J desc hcells response st
    rw [hr]
    exact nofun
  · rw [report_of_no_cells hcells]
    exact nofun

/-- The body's failure is met unless enough of it was read before. -/
theorem readBody_eq_io_iff {items : List (Chunk 1024)} {failure : Option IoFailure}
    {st : Download} {f : IoFailure} :
    readBody items failure st = .error (.io f) ↔ failure = some f ∧
      (items ≠ [] → st.totalBodyLen + bodyLen items.dropLast ≤ maxHttpResponseSize) := by
  induction items generalizing st with
  | nil =>
      cases failure with
      | none => simp [readBody]
      | some failure => simp [readBody]
  | cons chunk rest ih =>
      unfold readBody
      -- the limit is tested before a chunk is added, so the last chunk may pass it
      cases rest with
      | nil =>
          split
          · rename_i hle
            rw [ih]
            simpa [bodyLen] using fun _ => hle
          · rename_i hgt
            simpa [bodyLen] using fun _ => hgt
      | cons next rest =>
          have hlen : bodyLen (chunk :: next :: rest).dropLast =
              chunk.val.length + bodyLen (next :: rest).dropLast := rfl
          have hnonneg : 0 ≤ bodyLen (next :: rest).dropLast := Int.natCast_nonneg _
          have hadd : (st.add chunk.val).totalBodyLen = st.totalBodyLen + chunk.val.length := rfl
          rw [hlen]
          split
          · rw [ih, hadd, Int.add_assoc]
            simp
          · rename_i hgt
            have hnot : ¬ st.totalBodyLen + (chunk.val.length + bodyLen (next :: rest).dropLast) ≤
                maxHttpResponseSize := by omega
            simp [hnot]

/-- Reading a body fails with the failure of its stream. -/
theorem readBody_isIo {items : List (Chunk 1024)} {failure : Option IoFailure} {st : Download}
    {e : JavaException} (h : readBody items failure st = .error e) : ∃ f, e = .io f := by
  induction items generalizing st with
  | nil =>
      cases failure with
      | none => cases h
      | some failure =>
          cases h
          exact ⟨failure, rfl⟩
  | cons chunk rest ih =>
      unfold readBody at h
      split at h
      · exact ih h
      · cases h

/-- Either the stream does not fail, or enough is read of it before it does. -/
def Suffices (input : Input (Chunk 1024)) : Prop :=
  ∀ failure, input.failure = some failure → maxHttpResponseSize < bodyLen input.items.dropLast

/-- From the start on that is when the reads before the last one do not exceed the
limit. -/
theorem readBody_start_eq_io_iff {items : List (Chunk 1024)} {failure : Option IoFailure}
    {f : IoFailure} : readBody items failure ⟨0, []⟩ = .error (.io f) ↔
      failure = some f ∧ bodyLen items.dropLast ≤ maxHttpResponseSize := by
  rw [readBody_eq_io_iff]
  refine and_congr_right fun _ => ?_
  cases items with
  | nil => simp [bodyLen, maxHttpResponseSize]
  | cons chunk rest => simp

/-- The body is read exactly when what comes before a failure suffices. -/
theorem exists_readBody_iff {input : Input (Chunk 1024)} :
    (∃ st, readBody input.items input.failure ⟨0, []⟩ = .ok st) ↔ Suffices input := by
  unfold Suffices
  constructor
  · rintro ⟨st, hst⟩ f hf
    by_contra hle
    rw [readBody_start_eq_io_iff.mpr ⟨hf, not_lt.mp hle⟩] at hst
    cases hst
  · intro h
    cases hread : readBody input.items input.failure ⟨0, []⟩ with
    | ok st => exact ⟨st, rfl⟩
    | error e =>
        obtain ⟨f, rfl⟩ := readBody_isIo hread
        obtain ⟨hf, hle⟩ := readBody_start_eq_io_iff.mp hread
        exact absurd (h f hf) (not_lt.mpr hle)

/-- The body of a response is read, as far as it is. -/
def ReadsBody (response : HttpResponse) : Prop :=
  ∃ entity input, response.entity = some entity ∧ entity.getContent = .ok input ∧ Suffices input

/-- A response is received as expected exactly when it has an entity, and the cells
are known once its body is read. -/
theorem receive_failsOnly_iff {response : HttpResponse} :
    FailsOnly JavaException.Expected (receive J desc env response) ↔
      response.entity.isSome ∧ (ReadsBody response → env.device.neighboringCellInfo.isSome) := by
  unfold receive ReadsBody
  cases hentity : response.entity with
  | none =>
      rw [failsOnly_error]
      simp [JavaException.Expected, JavaException.isIo, JavaException.isMeasurementError]
  | some entity =>
      cases hinput : entity.getContent with
      | error failure =>
          simp only [hinput]
          refine iff_of_true (failsOnly_error.mpr (Or.inr rfl)) ⟨rfl, ?_⟩
          rintro ⟨_, _, heq, hcontent, -⟩
          cases heq
          rw [hinput] at hcontent
          cases hcontent
      | ok input =>
          simp only [hinput]
          rw [failsOnly_bind]
          simp only [report_failsOnly_iff, readBody_failsOnly, true_and, Option.isSome_some]
          rw [← exists_imp, exists_readBody_iff]
          simp [hinput]

/-- The failures a download ends with. The stream's own is met while the chunks
before the last are within the size of a response. -/
inductive Fails (desc : HttpDesc) (env : HttpEnv) (failure : IoFailure) : Prop where
  | execute (request : HttpRequest) (hrequest : prepare desc env = .ok request)
      (h : env.execute request = .error failure)
  | getContent (request : HttpRequest) (response : HttpResponse) (entity : HttpEntity)
      (hrequest : prepare desc env = .ok request) (hresponse : env.execute request = .ok response)
      (hentity : response.entity = some entity) (h : entity.getContent = .error failure)
  | read (request : HttpRequest) (response : HttpResponse) (entity : HttpEntity)
      (input : Input (Chunk 1024))
      (hrequest : prepare desc env = .ok request) (hresponse : env.execute request = .ok response)
      (hentity : response.entity = some entity) (hinput : entity.getContent = .ok input)
      (h : input.failure = some failure)
      (hlen : bodyLen input.items.dropLast ≤ maxHttpResponseSize)

/-- What a call needs of its surroundings: an accepted url, a body to post, an
entity in the answer it gets, a list of the cells around the phone when the body is
read, and a message the log takes in the failure it ends with. -/
structure Served (J : Platform) (desc : HttpDesc) (env : HttpEnv) : Prop where
  validUri : env.validUri
  postsBody : sameIgnoringCase desc.method "post" → desc.body.isSome
  entity : ∀ request response, prepare desc env = .ok request →
    env.execute request = .ok response → response.entity.isSome
  cells : ∀ request response, prepare desc env = .ok request →
    env.execute request = .ok response → ReadsBody response →
      env.device.neighboringCellInfo.isSome
  logs : ∀ failure, Fails desc env failure → J.Logs failure.message

/-- A method that is another word is no `post`. -/
theorem not_post_of_sameIgnoringCase {method word : String} (h : sameIgnoringCase method word)
    (hne : word.toList.map foldCase ≠ "post".toList.map foldCase) :
    ¬ sameIgnoringCase method "post" := by
  intro hpost
  exact hne ((of_decide_eq_true h).symm.trans (of_decide_eq_true hpost))

/-- A request needs a valid URI, and for POST a body. -/
theorem newRequest_failsOnly_iff :
    FailsOnly JavaException.Expected (newRequest desc env) ↔
      env.validUri ∧ (sameIgnoringCase desc.method "post" → desc.body.isSome) := by
  have hargument : ∀ {message}, ¬ JavaException.Expected (.illegalArgument message) := by
    intro message
    simp [JavaException.Expected, JavaException.isIo, JavaException.isMeasurementError]
  unfold newRequest
  split
  · rename_i huri
    simp only [huri, true_and]
    split
    · rename_i hhead
      simp [failsOnly_ok, not_post_of_sameIgnoringCase hhead (by decide +kernel)]
    · split
      · rename_i hget
        simp [failsOnly_ok, not_post_of_sameIgnoringCase hget (by decide +kernel)]
      · split
        · rename_i hpost
          split
          · rename_i hbody
            rw [failsOnly_error]
            simp [hargument, hpost, hbody]
          · rename_i hbody
            simp [failsOnly_ok, hbody]
        · rename_i hpost
          simp [failsOnly_ok, hpost]
  · rename_i huri
    rw [failsOnly_error]
    simp [hargument, huri]

theorem prepare_failsOnly_iff :
    FailsOnly JavaException.Expected (prepare desc env) ↔
      env.validUri ∧ (sameIgnoringCase desc.method "post" → desc.body.isSome) := by
  unfold prepare
  rw [failsOnly_bind, newRequest_failsOnly_iff]
  exact and_iff_left fun _ _ => addHeaders_failsOnly

/-- Building the request involves no stream. -/
theorem prepare_ne_io {f : IoFailure} : prepare desc env ≠ .error (.io f) := by
  intro h
  unfold prepare at h
  rcases except_bind_eq_error.mp h with h | ⟨request, -, h⟩
  · unfold newRequest at h
    grind
  · unfold addHeaders at h
    split at h
    · cases h
    · split at h
      · exact foldlM_addHeader_ne_io h
      · cases h

/-- An I/O failure of a response is its content's or its body's. -/
theorem receive_eq_io_iff {response : HttpResponse} {entity : HttpEntity}
    (hentity : response.entity = some entity) {f : IoFailure} :
    receive J desc env response = .error (.io f) ↔ entity.getContent = .error f ∨
      ∃ input, entity.getContent = .ok input ∧ input.failure = some f ∧
        bodyLen input.items.dropLast ≤ maxHttpResponseSize := by
  unfold receive
  simp only [hentity]
  cases hinput : entity.getContent with
  | error failure => simp
  | ok input =>
      simp only [except_bind_eq_error, readBody_start_eq_io_iff]
      simp [report_ne_io]

/-- The download fails where an operation of the client does. -/
theorem download_eq_io_iff (hentity : ∀ request response, prepare desc env = .ok request →
    env.execute request = .ok response → response.entity.isSome) {f : IoFailure} :
    download J desc env = .error (.io f) ↔ Fails desc env f := by
  unfold download
  rw [except_bind_eq_error]
  constructor
  · rintro (h | ⟨request, hrequest, h⟩)
    · -- `prepare` throws no `IOException`
      exact absurd h prepare_ne_io
    · cases hresponse : env.execute request with
      | error failure =>
          simp only [hresponse] at h
          cases h
          exact .execute request hrequest hresponse
      | ok response =>
          simp only [hresponse] at h
          obtain ⟨entity, he⟩ :=
            Option.isSome_iff_exists.mp (hentity request response hrequest hresponse)
          -- the entity cannot be opened, or a read of it fails
          rcases (receive_eq_io_iff he).mp h with h | ⟨input, hinput, h, hlen⟩
          · exact .getContent request response entity hrequest hresponse he h
          · exact .read request response entity input hrequest hresponse he hinput h hlen
  · rintro (⟨request, hrequest, h⟩ | ⟨request, response, entity, hrequest, hresponse, he, h⟩ |
      ⟨request, response, entity, input, hrequest, hresponse, he, hinput, h, hlen⟩)
    · refine Or.inr ⟨request, hrequest, ?_⟩
      simp only [h]
    · refine Or.inr ⟨request, hrequest, ?_⟩
      simp only [hresponse]
      exact (receive_eq_io_iff he).mpr (Or.inl h)
    · refine Or.inr ⟨request, hrequest, ?_⟩
      simp only [hresponse]
      exact (receive_eq_io_iff he).mpr (Or.inr ⟨input, hinput, h, hlen⟩)

/-- It throws nothing else exactly when request and response are as expected. -/
theorem download_failsOnly_iff : FailsOnly JavaException.Expected (download J desc env) ↔
    (env.validUri ∧ (sameIgnoringCase desc.method "post" → desc.body.isSome)) ∧
      ∀ request, prepare desc env = .ok request → ∀ response, env.execute request = .ok response →
        response.entity.isSome ∧
          (ReadsBody response → env.device.neighboringCellInfo.isSome) := by
  have hexecute : ∀ request,
      FailsOnly JavaException.Expected (match env.execute request with
        | .error failure => .error (.io failure)
        | .ok response => receive J desc env response) ↔
      ∀ response, env.execute request = .ok response → response.entity.isSome ∧
        (ReadsBody response → env.device.neighboringCellInfo.isSome) := by
    intro request
    split
    · rename_i hfailure
      simp [failsOnly_error, JavaException.Expected, JavaException.isIo, hfailure]
    · rename_i hresponse
      simp [receive_failsOnly_iff, hresponse]
  unfold download
  simp only [failsOnly_bind, hexecute, prepare_failsOnly_iff]

theorem contained_iff : Contained (call J desc env) ↔ Served J desc env := by
  have hfailed : ∀ failure, Contained (failed J failure) ↔ J.Logs failure.message :=
    fun failure => contained_logError J
  rw [call_eq, Contained, failsOnly_catchIo_iff, download_failsOnly_iff]
  simp only [hfailed]
  constructor
  · rintro ⟨⟨⟨huri, hpost⟩, hresponse⟩, hlogs⟩
    have hentity := fun request response hrequest hexecute =>
      (hresponse request hrequest response hexecute).1
    refine ⟨huri, hpost, hentity, fun request response hrequest hexecute =>
      (hresponse request hrequest response hexecute).2, fun f hf => ?_⟩
    exact hlogs f ((download_eq_io_iff hentity).mpr hf)
  · rintro ⟨huri, hpost, hentity, hcells, hlogs⟩
    refine ⟨⟨⟨huri, hpost⟩, fun request hrequest response hexecute =>
      ⟨hentity request response hrequest hexecute, hcells request response hrequest hexecute⟩⟩,
      fun f hf => ?_⟩
    exact hlogs f ((download_eq_io_iff hentity).mp hf)

/-! ## Showing the result -/

/-- The count of the body's bytes exceeds the limit by one read at most. -/
theorem readBody_totalBodyLen {items : List (Chunk 1024)} {failure : Option IoFailure}
    {st st' : Download} (hlo : 0 ≤ st.totalBodyLen)
    (hhi : st.totalBodyLen ≤ maxHttpResponseSize + 1024)
    (h : readBody items failure st = .ok st') :
    0 ≤ st'.totalBodyLen ∧ st'.totalBodyLen ≤ maxHttpResponseSize + 1024 := by
  induction items generalizing st with
  | nil =>
      cases failure with
      | none =>
          cases h
          exact ⟨hlo, hhi⟩
      | some failure => cases h
  | cons chunk rest ih =>
      unfold readBody at h
      split at h
      · have hlen := chunk.property.2
        have hadd : (st.add chunk.val).totalBodyLen = st.totalBodyLen + chunk.val.length := rfl
        exact ih (by omega) (by omega) h
      · cases h
        exact ⟨hlo, hhi⟩

/-- The body of such an answer is read to its end. -/
structure Fetched (desc : HttpDesc) (env : HttpEnv) (response : HttpResponse)
    (st : Download) : Prop where
  answered : ∃ request, prepare desc env = .ok request ∧ env.execute request = .ok response
  read : ∃ entity input, response.entity = some entity ∧ entity.getContent = .ok input ∧
    readBody input.items input.failure ⟨0, []⟩ = .ok st

/-- What a download with status 200 has to come to. -/
def Showable (desc : HttpDesc) (env : HttpEnv) : Prop :=
  ∀ response st, Fetched desc env response st → env.device.neighboringCellInfo.isSome →
    response.statusCode = some 200 → headersLen response < 2 ^ 31 ∧
      duration env ≠ 0 ∧ -2 ^ 31 ≤ duration env ∧ duration env < 2 ^ 31

theorem headersLen_nonneg (response : HttpResponse) : 0 ≤ headersLen response := by
  unfold headersLen
  exact Int.natCast_nonneg _

/-- The formatter reads three numbers back and divides by the third. -/
theorem exists_getHttpResult_iff {r : MeasurementResult} {headersLen bodyLen time : ℤ}
    (hsuccess : r.success = true)
    (hheaders : r.values.get "headers_len" = some (toString headersLen))
    (hbody : r.values.get "body_len" = some (toString bodyLen))
    (htime : r.values.get "time_ms" = some (toString time)) :
    (∃ lines, getHttpResult J desc r = .ok lines) ↔
      (-2 ^ 31 ≤ headersLen ∧ headersLen < 2 ^ 31) ∧ (-2 ^ 31 ≤ bodyLen ∧ bodyLen < 2 ^ 31) ∧
        (-2 ^ 31 ≤ time ∧ time < 2 ^ 31) ∧ time ≠ 0 := by
  unfold getHttpResult
  rw [if_pos hsuccess, hheaders, hbody, htime]
  simp only [exists_bind_eq_ok, intValue_toString_eq_ok]
  constructor
  · rintro ⟨_, ⟨-, hh⟩, _, ⟨-, hb⟩, _, ⟨rfl, ht⟩, lines, hlines⟩
    refine ⟨hh, hb, ht, ?_⟩
    rintro rfl
    rw [if_pos rfl] at hlines
    cases hlines
  · rintro ⟨hh, hb, ht, hne⟩
    refine ⟨_, ⟨rfl, hh⟩, _, ⟨rfl, hb⟩, _, ⟨rfl, ht⟩, ?_⟩
    rw [if_neg hne]
    exact ⟨_, rfl⟩

/-- A report can be shown exactly when its numbers are `int`s and the duration is
not 0. -/
theorem shown_report_iff {response : HttpResponse} {st : Download}
    (hlo : 0 ≤ st.totalBodyLen) (hhi : st.totalBodyLen ≤ maxHttpResponseSize + 1024) :
    Shown J (report J desc env response st) ↔
      (env.device.neighboringCellInfo.isSome → response.statusCode = some 200 →
        headersLen response < 2 ^ 31 ∧
          duration env ≠ 0 ∧ -2 ^ 31 ≤ duration env ∧ duration env < 2 ^ 31) := by
  have hstatus : success response = true ↔ response.statusCode = some 200 := by
    simp [success]
  by_cases hcells : env.device.neighboringCellInfo.isSome
  · rw [imp_iff_right hcells]
    cases hsuccess : success response with
    | false =>
        have hother : ¬ response.statusCode = some 200 := by
          rw [← hstatus, hsuccess]
          simp
        rw [report_of_failure hcells hsuccess, shown_ok_iff]
        simp [hsuccess, hother]
    | true =>
        have hok := hstatus.mp hsuccess
        have hnonneg := headersLen_nonneg response
        have hmax : maxHttpResponseSize = 1048576 := rfl
        rw [report_of_success hcells hsuccess, shown_ok_iff]
        show (success response = true → ∃ lines, getHttpResult J desc _ = .ok lines) ↔ _
        rw [exists_getHttpResult_iff hsuccess rfl rfl rfl]
        simp only [hsuccess, hok, true_imp_iff]
        omega
  · rw [report_of_no_cells hcells]
    exact iff_of_true shown_error fun h => absurd h hcells

/-- What the call returns can be shown exactly then. -/
theorem shown_iff : Shown J (call J desc env) ↔ Showable desc env := by
  have hfailed : ∀ failure, Shown J (failed J failure) :=
    fun failure => shown_bind.mpr fun _ _ => shown_error
  rw [call_eq, shown_catchIo hfailed]
  unfold download Showable
  rw [shown_bind]
  constructor
  · -- the body was read, so the call reports it
    rintro h response st ⟨⟨request, hrequest, hexecute⟩, entity, input, hentity, hinput, hread⟩
    have hreport := h request hrequest
    simp only [hexecute, receive, hentity, hinput] at hreport
    have hbounds := readBody_totalBodyLen (by decide) (by decide) hread
    exact (shown_report_iff hbounds.1 hbounds.2).mp (shown_bind.mp hreport st hread)
  · -- whatever ends the call earlier is an exception, and no result of success
    intro h request hrequest
    cases hexecute : env.execute request with
    | error failure => exact shown_error
    | ok response =>
        cases hentity : response.entity with
        | none =>
            simp only [receive, hentity]
            exact shown_error
        | some entity =>
            cases hinput : entity.getContent with
            | error failure =>
                simp only [receive, hentity, hinput]
                exact shown_error
            | ok input =>
                simp only [receive, hentity, hinput]
                rw [shown_bind]
                intro st hread
                have hbounds := readBody_totalBodyLen (by decide) (by decide) hread
                rw [shown_report_iff hbounds.1 hbounds.2]
                exact h response st
                  ⟨⟨request, hrequest, hexecute⟩, entity, input, hentity, hinput, hread⟩

end HttpTask

end MobiPerf.Measurements
