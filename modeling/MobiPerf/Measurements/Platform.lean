import MobiPerf.Lib.Fallible
import MobiPerf.Measurements.Text

/-!
# Measurements.Platform — what the Java platform supplies

The exceptions a measurement can end with, what calls of the platform can come
to, and the `Platform` itself: the arithmetic of `double` and `float`, the
texts of their values, the locale and the character set of the phone, and the
JSON encoder. The documented facts that are used of them are fields
of the structure, so that nothing is assumed beside it.

Of the lines of the log only those whose text may be missing are kept.
-/

namespace MobiPerf.Measurements

open Lib Scheduler

/-! ## Exceptions -/

/-- What an `IOException` carries. -/
structure IoFailure where
  message : Option String
  cause : Option String
deriving DecidableEq, Repr

inductive JavaException where
  | measurementError (message : String)
  | io (failure : IoFailure)
  | security (message : Option String)
  | interrupted
  | numberFormat (message : String)
  | invalidParameter (message : String)
  | illegalArgument (message : String)
  | nullPointer
  | arrayIndexOutOfBounds
  | stringIndexOutOfBounds
  | arithmetic
  | classCast
deriving DecidableEq, Repr

namespace JavaException

def isMeasurementError : JavaException → Bool
  | measurementError _ => true
  | _ => false

def isIo : JavaException → Bool
  | io _ => true
  | _ => false

/-- What may leave a body whose `IOException`s are caught. -/
def Expected (e : JavaException) : Prop := e.isMeasurementError ∨ e.isIo

/-- An `IllegalArgumentException` or an exception of one of its subclasses. -/
def isIllegalArgument : JavaException → Bool
  | illegalArgument _ => true
  | numberFormat _ => true
  | invalidParameter _ => true
  | _ => false

/-- `e.getMessage()`. -/
def message : JavaException → Option String
  | measurementError message => some message
  | io failure => failure.message
  | security message => message
  | numberFormat message => some message
  | invalidParameter message => some message
  | illegalArgument message => some message
  | arithmetic => some "divide by zero"
  | _ => none

end JavaException

/-- The exception of a number parser. -/
def numberFormat (s : String) : JavaException :=
  .numberFormat ("For input string: \"" ++ s ++ "\"")

/-- `try { body } finally { cleanUp }`: an exception of the clean-up replaces
what the body came to. -/
def tryFinally {α : Type} (body : Except JavaException α) (cleanUp : Except JavaException Unit) :
    Except JavaException α :=
  match cleanUp with
  | .ok () => body
  | .error e => .error e

/-- `try { body } catch (IOException e) { handler }`. -/
def catchIo {α : Type} (handler : IoFailure → Except JavaException α)
    (body : Except JavaException α) : Except JavaException α :=
  match body with
  | .error (.io failure) => handler failure
  | x => x

section Handlers

variable {α : Type} {message : String} {body : Except JavaException α}
  {cleanUp : Except JavaException Unit} {P : α → Prop}

/-- Where an `IOException` is caught, it may leave the body as well, and the
handler takes over. -/
theorem failsOnly_catchIo_iff {handler : IoFailure → Except JavaException α} :
    FailsOnly (fun e => e.isMeasurementError) (catchIo handler body) ↔
      FailsOnly JavaException.Expected body ∧ ∀ failure, body = .error (.io failure) →
        FailsOnly (fun e => e.isMeasurementError) (handler failure) := by
  cases body with
  | ok a =>
      refine iff_of_true failsOnly_ok ⟨failsOnly_ok, fun failure h => ?_⟩
      cases h
  | error e =>
      cases e with
      | io failure =>
          show FailsOnly _ (handler failure) ↔ _
          rw [failsOnly_error]
          simp [JavaException.Expected, JavaException.isIo]
      | _ =>
          show FailsOnly _ (.error _) ↔ FailsOnly _ (.error _) ∧ _
          rw [failsOnly_error, failsOnly_error]
          simp [JavaException.Expected, JavaException.isIo]

/-- A handler that reports a measurement error lets through what is one already. -/
theorem failsOnly_catchIo :
    FailsOnly (fun e => e.isMeasurementError)
        (catchIo (fun _ => .error (.measurementError message)) body) ↔
      FailsOnly JavaException.Expected body := by
  rw [failsOnly_catchIo_iff]
  exact and_iff_left fun _ _ => failsOnly_error.mpr rfl

/-- The same inside a body that is caught once more. -/
theorem ends_catchIo :
    Ends (catchIo (fun _ => .error (.measurementError message)) body) P JavaException.Expected ↔
      Ends body P JavaException.Expected := by
  cases body with
  | ok a => exact Iff.rfl
  | error e =>
      cases e with
      | io failure => exact iff_of_true (ends_error (Or.inl rfl)) (ends_error (Or.inr rfl))
      | _ => exact Iff.rfl

theorem catchIo_eq_ok {handler : IoFailure → Except JavaException α} {a : α}
    (hhandler : ∀ failure, handler failure ≠ .ok a) :
    catchIo handler body = .ok a ↔ body = .ok a := by
  cases body with
  | ok b => exact Iff.rfl
  | error e =>
      cases e with
      | io failure =>
          refine iff_of_false (hhandler failure) (fun h => ?_)
          cases h
      | _ => exact Iff.rfl

theorem tryFinally_eq_ok {a : α} :
    tryFinally body cleanUp = .ok a ↔ cleanUp = .ok () ∧ body = .ok a := by
  cases cleanUp with
  | ok u => exact ⟨fun h => ⟨rfl, h⟩, fun h => h.2⟩
  | error e =>
      constructor
      · intro h
        cases h
      · rintro ⟨h, -⟩
        cases h

/-- How the body ends counts when the clean-up does its part. -/
theorem ends_tryFinally {Q : JavaException → Prop} (hcleanUp : FailsOnly Q cleanUp) :
    Ends (tryFinally body cleanUp) P Q ↔ (cleanUp = .ok () → Ends body P Q) := by
  cases cleanUp with
  | ok u => exact ⟨fun h _ => h, fun h => h rfl⟩
  | error e =>
      refine iff_of_true (ends_error (failsOnly_error.mp hcleanUp)) (fun h => ?_)
      cases h

end Handlers

/-! ## Streams and processes -/

/-- What the reads of a stream give: its items, then the end of the stream or a
failure. -/
structure Input (α : Type) where
  items : List α
  failure : Option IoFailure

/-- Reading a stream to its end, with a body for each item. -/
def Input.readAll {α σ : Type} (input : Input α) (body : σ → α → Except JavaException σ)
    (s : σ) : Except JavaException σ := do
  let s ← input.items.foldlM body s
  match input.failure with
  | none => .ok s
  | some failure => .error (.io failure)

/-- The bytes one read leaves in a buffer of this size. -/
abbrev Chunk (size : ℕ) := { bytes : List UInt8 // bytes ≠ [] ∧ bytes.length ≤ size }

/-- What `Runtime.exec` comes to. -/
inductive Exec where
  | started
  | io (failure : IoFailure)
  | security (message : Option String)
deriving DecidableEq, Repr

def Exec.isIo : Exec → Bool
  | .io _ => true
  | _ => false

/-- The length of an address in bytes is 4 or 16. -/
inductive IpVersion where
  | v4
  | v6
deriving DecidableEq, Repr

/-- What `InetAddress.getByName` finds. -/
structure InetAddress where
  version : IpVersion
  hostAddress : String
  canonicalHostName : String
deriving DecidableEq, Repr

/-- The executable's name among the string resources. -/
def IpVersion.pingExecutable : IpVersion → String
  | .v4 => "ping"
  | .v6 => "ping6"

/-- The directories on the path, with what starting the executable in each comes
to: the first one that starts is taken. -/
def pingExecutableBasedOnIPType (version : IpVersion) :
    List (String × Exec) → Except JavaException (Option String)
  | [] => .ok none
  | (location, .started) :: _ => .ok (some (location ++ "/" ++ version.pingExecutable))
  | (_, .io _) :: rest => pingExecutableBasedOnIPType version rest
  | (_, .security message) :: _ => .error (.security message)

/-- The first attempt on the path that is not refused by the file system. -/
def firstAttempt (path : List (String × Exec)) : Option (String × Exec) :=
  path.find? fun attempt => !attempt.2.isIo

/-- No directory refuses the executable for lack of a permission before one
starts it. -/
def Permitted (path : List (String × Exec)) : Prop :=
  ∀ location message, firstAttempt path ≠ some (location, .security message)

/-- A directory starts the executable, and none before it refuses a permission. -/
def Installed (path : List (String × Exec)) : Prop :=
  ∃ location, firstAttempt path = some (location, .started)

theorem pingExecutable_failsOnly_iff {version : IpVersion} {path : List (String × Exec)} :
    FailsOnly (fun e => e.isMeasurementError) (pingExecutableBasedOnIPType version path) ↔
      Permitted path := by
  unfold Permitted firstAttempt
  induction path with
  | nil => simp [pingExecutableBasedOnIPType, FailsOnly]
  | cons attempt rest ih =>
      rcases attempt with ⟨location, _ | failure | message⟩
      · simp [pingExecutableBasedOnIPType, failsOnly_ok, Exec.isIo]
      · simpa [pingExecutableBasedOnIPType, Exec.isIo] using ih
      · simp [pingExecutableBasedOnIPType, failsOnly_error, Exec.isIo,
          JavaException.isMeasurementError]

theorem pingExecutable_eq_some_iff (version : IpVersion) {path : List (String × Exec)} :
    (∃ exe, pingExecutableBasedOnIPType version path = .ok (some exe)) ↔ Installed path := by
  unfold Installed firstAttempt
  induction path with
  | nil => simp [pingExecutableBasedOnIPType]
  | cons attempt rest ih =>
      rcases attempt with ⟨location, _ | failure | message⟩
      · simp [pingExecutableBasedOnIPType, Exec.isIo]
      · simpa [pingExecutableBasedOnIPType, Exec.isIo] using ih
      · simp [pingExecutableBasedOnIPType, Exec.isIo]

/-! ## The platform -/

structure Platform where
  double : Rounding 1023
  float : Rounding 127
  /-- `Double.toString`. -/
  doubleText : Value → String
  /-- `Float.toString`. -/
  floatText : Value → String
  /-- `new Date(millis).toString()`, in the time zone of the phone. -/
  dateText : ℤ → String
  locale : Locale
  /-- `new String(bytes)`, in the character set of the phone. -/
  newString : List UInt8 → String
  /-- Whether the log takes a line that is `null`. -/
  logsNull : Bool
  /-- A string as the JSON library writes it. -/
  quote : String → String
  readDecimal_doubleText : ∀ q, (readDecimal (doubleText (.finite q))).isSome
  comma_notMem_doubleText : ∀ q, ',' ∉ (doubleText (.finite q)).toList
  quote_number : ∀ s : String, (∀ c ∈ s.toList, c.isDigit ∨ c = '.' ∨ c = '-') →
    quote s = "\"" ++ s ++ "\""

namespace Platform

variable (J : Platform)

/-- `Double.parseDouble`. -/
def parseDouble (s : String) : Except JavaException Value :=
  match readDecimal s with
  | some x => .ok (J.double.convert x)
  | none => .error (numberFormat s)

/-- `Float.parseFloat`. -/
def parseFloat : Option String → Except JavaException Value
  | none => .error .nullPointer
  | some s =>
    match readDecimal s with
    | some x => .ok (J.float.convert x)
    | none => .error (numberFormat s)

/-- The log takes the message, or does without one. -/
def Logs (message : Option String) : Prop := message.isSome ∨ J.logsNull

instance (message : Option String) : Decidable (J.Logs message) :=
  inferInstanceAs (Decidable (_ ∨ _))

/-- `Logger.e(e.getMessage())`. -/
def logError (message : Option String) : Except JavaException Unit :=
  if J.Logs message then .ok () else .error .nullPointer

theorem doubleText_ne_empty (q : ℚ) : J.doubleText (.finite q) ≠ "" := by
  intro h
  have hsome := J.readDecimal_doubleText q
  rw [h] at hsome
  exact absurd hsome (by decide +kernel)

/-- A platform that writes Latin digits, three of them behind the point, and
reads bytes as the characters of their codes. -/
def latin : Platform where
  double := Rounding.binary64
  float := Rounding.binary32
  doubleText := Locale.latin.format 3
  floatText := Locale.latin.format 3
  dateText := toString
  locale := Locale.latin
  newString bytes := String.ofList (bytes.map fun b => Char.ofNat b.toNat)
  logsNull := false
  quote s := "\"" ++ s ++ "\""
  readDecimal_doubleText q := readDecimal_format 3 (.finite q)
  comma_notMem_doubleText q := comma_notMem_format 3 q
  quote_number _ _ := rfl

/-- What is put into a result. -/
inductive Object where
  | string (s : Option String)
  | whole (n : ℤ)
  | double (x : Value)
  | float (x : Value)
  | doubles (xs : List Value)
  | boolean (b : Bool)

/-- The JSON text of a list of doubles. -/
def doublesText (xs : List Value) : String :=
  String.ofList ('[' :: List.intercalate [','] (xs.map fun x => (J.doubleText x).toList) ++ [']'])

/-- The JSON text of a string that may be missing. -/
def stringText : Option String → String
  | none => "null"
  | some s => J.quote s

/-- `MeasurementJsonConvertor.toJsonString`: JSON has no text for an infinity or
for what is not a number. -/
def toJsonString : Object → Except JavaException String
  | .string s => .ok (J.stringText s)
  | .whole n => .ok (toString n)
  | .double x =>
    if x.isFinite then .ok (J.doubleText x)
    else .error (.illegalArgument "not a valid double value as per JSON specification")
  | .float x =>
    if x.isFinite then .ok (J.floatText x)
    else .error (.illegalArgument "not a valid double value as per JSON specification")
  | .doubles xs =>
    if xs.all Value.isFinite then .ok (J.doublesText xs)
    else .error (.illegalArgument "not a valid double value as per JSON specification")
  | .boolean b => .ok (if b then "true" else "false")

end Platform

/-- `Integer.parseInt` of a value that may be missing. -/
def intValue : Option String → Except JavaException ℤ
  | none => .error (.numberFormat "null")
  | some s =>
    match parseInt s with
    | some n => .ok n
    | none => .error (numberFormat s)

/-- The `int` a value is cast to: truncated, held at the ends of the range, zero
when it is not a number. -/
def castInt : Value → ℤ
  | .nan => 0
  | .infinite negative => if negative then -2 ^ 31 else 2 ^ 31 - 1
  | .finite q => max (-2 ^ 31) (min (2 ^ 31 - 1) (if 0 ≤ q then ⌊q⌋ else -⌊-q⌋))

end MobiPerf.Measurements
