import Mathlib.Data.List.ReduceOption
import MobiPerf.Lib.JsonString
import MobiPerf.Scheduler.Consoles

/-!
# Scheduler.ConsoleStore — the consoles over a restart

The service keeps each console in the preferences, as a JSON list that is written
from the oldest message to the newest, and builds it again by inserting what it
reads. What is assumed of the JSON library is that it reads back the lists of
strings it wrote.

* `foldl_insertMessage`: a console holds the latest messages, newest first;
* `restoreConsole_save`: saving a console within its bound and restoring it gives
  it back;
* `run_eq`: restarts on the way change nothing of what a console holds.
-/

namespace MobiPerf.Scheduler

open Lib

/-! ## Insertion -/

/-- `insertStringToConsole` as it is called, with a message that may be null. -/
def insertMessage (console : List String) : Option String → List String
  | none => console
  | some msg => insertStringToConsole console msg

/-- Null messages leave no trace. -/
theorem foldl_insertMessage_eq (console : List String) (msgs : List (Option String)) :
    msgs.foldl insertMessage console = msgs.reduceOption.foldl (push maxListItems) console := by
  induction msgs generalizing console with
  | nil => rfl
  | cons msg msgs ih =>
      rw [List.foldl_cons, ih]
      cases msg with
      | none => rw [List.reduceOption_cons_of_none, insertMessage]
      | some msg =>
          rw [List.reduceOption_cons_of_some, List.foldl_cons, insertMessage,
            insertStringToConsole_eq]

theorem foldl_insertMessage (msgs : List (Option String)) :
    msgs.foldl insertMessage [] = recent maxListItems msgs.reduceOption := by
  rw [foldl_insertMessage_eq, foldl_push_nil]

/-! ## The preferences -/

/-- The strings under their keys. -/
abbrev Preferences := String → Option String

/-- The JSON library at the type `ArrayList<String>`: a text may be refused, or
read as null, and so may an item of the list. -/
structure Gson where
  toJson : List String → String
  fromJson : String → Except String (Option (List (Option String)))

/-- Lists of strings are read back as they were written. -/
def Gson.RoundTrips (gson : Gson) : Prop :=
  ∀ items : List String, gson.fromJson (gson.toJson items) = .ok (some (items.map some))

def saveConsoleContent (gson : Gson) (mPreferences : Preferences) (consoleContent : List String)
    (prefKey : String) : Preferences :=
  -- from the last index to the first, each to the end of `items`
  let items := consoleContent.foldr (fun item items => items ++ [item]) []
  Function.update mPreferences prefKey (some (gson.toJson items))

def restoreConsole (gson : Gson) (mPreferences : Preferences) (consoleContent : List String)
    (prefKey : String) : Except String (List String) :=
  match mPreferences prefKey with
  | none => .ok consoleContent
  | some savedConsole => do
      match ← gson.fromJson savedConsole with
      | none => .ok consoleContent
      | some items => .ok (items.foldl insertMessage consoleContent)

theorem reduceOption_map_some (l : List String) : (l.map some).reduceOption = l := by
  induction l with
  | nil => rfl
  | cons item l ih => rw [List.map_cons, List.reduceOption_cons_of_some, ih]

theorem foldr_snoc (l : List String) :
    l.foldr (fun item items => items ++ [item]) [] = l.reverse := by
  induction l with
  | nil => rfl
  | cons item l ih => rw [List.foldr_cons, ih, List.reverse_cons]

section Restart

variable {gson : Gson} (hgson : gson.RoundTrips) (mPreferences : Preferences)
include hgson

theorem restoreConsole_save {console : List String} (h : console.length ≤ maxListItems)
    (prefKey : String) :
    restoreConsole gson (saveConsoleContent gson mPreferences console prefKey) [] prefKey =
      .ok console := by
  have hsaved : saveConsoleContent gson mPreferences console prefKey prefKey =
      some (gson.toJson console.reverse) := by
    unfold saveConsoleContent
    rw [foldr_snoc, Function.update_self]
  unfold restoreConsole
  rw [hsaved]
  dsimp only
  rw [hgson]
  change Except.ok ((console.reverse.map some).foldl insertMessage []) = Except.ok console
  rw [foldl_insertMessage_eq, reduceOption_map_some, foldl_push_reverse h]

/-- A console holds the last messages that were not null, newest first, and is the
same after a restart. -/
theorem console_survives_restart (msgs : List (Option String)) (prefKey : String) :
    msgs.foldl insertMessage [] = msgs.reduceOption.reverse.take maxListItems ∧
      restoreConsole gson
          (saveConsoleContent gson mPreferences (msgs.foldl insertMessage []) prefKey) [] prefKey =
        .ok (msgs.foldl insertMessage []) := by
  refine ⟨foldl_insertMessage msgs, ?_⟩
  apply restoreConsole_save hgson
  rw [foldl_insertMessage]
  exact length_recent_le _ _

end Restart

/-! ## Runs with restarts -/

/-- A message, or the service going down and coming up again. -/
inductive ConsoleEvent where
  | insert (msg : Option String)
  | restart

/-- The message an event brings. -/
def ConsoleEvent.message : ConsoleEvent → Option String
  | insert msg => msg
  | restart => none

/-- The preferences and the console in memory after the event. -/
def ConsoleEvent.step (gson : Gson) (prefKey : String) (s : Preferences × List String) :
    ConsoleEvent → Except String (Preferences × List String)
  | insert msg => .ok (s.1, insertMessage s.2 msg)
  | restart => do
      let mPreferences := saveConsoleContent gson s.1 s.2 prefKey
      let console ← restoreConsole gson mPreferences [] prefKey
      .ok (mPreferences, console)

theorem ConsoleEvent.step_eq {gson : Gson} (hgson : gson.RoundTrips) (prefKey : String)
    (mPreferences : Preferences) {console : List String} (h : console.length ≤ maxListItems)
    (event : ConsoleEvent) :
    ∃ mPreferences', event.step gson prefKey (mPreferences, console) =
      .ok (mPreferences', insertMessage console event.message) := by
  cases event with
  | insert msg => exact ⟨mPreferences, rfl⟩
  | restart =>
      refine ⟨saveConsoleContent gson mPreferences console prefKey, ?_⟩
      unfold step
      dsimp only
      rw [restoreConsole_save hgson mPreferences h]
      rfl

theorem run_recent {gson : Gson} (hgson : gson.RoundTrips) (prefKey : String)
    (mPreferences : Preferences) (msgs : List String) (events : List ConsoleEvent) :
    ∃ mPreferences',
      events.foldlM (ConsoleEvent.step gson prefKey) (mPreferences, recent maxListItems msgs) =
        .ok (mPreferences',
          recent maxListItems (msgs ++ (events.map ConsoleEvent.message).reduceOption)) := by
  induction events generalizing mPreferences msgs with
  | nil => exact ⟨mPreferences, by rw [List.map_nil, List.reduceOption_nil, List.append_nil]; rfl⟩
  | cons event events ih =>
      obtain ⟨mPreferences', hstep⟩ := ConsoleEvent.step_eq hgson prefKey mPreferences
        (length_recent_le maxListItems msgs) event
      rw [List.foldlM_cons, hstep, List.map_cons]
      cases event.message with
      | none =>
          rw [List.reduceOption_cons_of_none]
          exact ih mPreferences' msgs
      | some msg =>
          rw [List.reduceOption_cons_of_some, insertMessage, insertStringToConsole_eq, push_recent]
          have hrest := ih mPreferences' (msgs ++ [msg])
          rw [List.append_assoc, List.singleton_append] at hrest
          exact hrest

/-- However often the service is restarted in between, the console holds the last
messages. -/
theorem run_eq {gson : Gson} (hgson : gson.RoundTrips) (prefKey : String)
    (mPreferences : Preferences) (events : List ConsoleEvent) :
    ∃ mPreferences', events.foldlM (ConsoleEvent.step gson prefKey) (mPreferences, []) =
      .ok (mPreferences', recent maxListItems (events.map ConsoleEvent.message).reduceOption) :=
  run_recent hgson prefKey mPreferences [] events

/-! ## An encoder -/

/-- The items of a list, without its opening bracket. -/
def itemsChars : List String → List Char
  | [] => [']']
  | [s] => '"' :: JsonString.closed s.toList ++ [']']
  | s :: t :: items => '"' :: JsonString.closed s.toList ++ ',' :: itemsChars (t :: items)

/-- At most `n` items. -/
def readItems : ℕ → List Char → List String
  | n + 1, '"' :: rest =>
      String.ofList (JsonString.readChars rest).1 ::
        match (JsonString.readChars rest).2 with
        | ',' :: rest => readItems n rest
        | _ => []
  | _, _ => []

/-- JSON lists of strings. -/
def jsonLists : Gson where
  toJson items := String.ofList ('[' :: itemsChars items)
  fromJson s := .ok (some ((readItems s.toList.length s.toList.tail).map some))

theorem readItems_itemsChars (items : List String) {n : ℕ} (h : items.length ≤ n) :
    readItems n (itemsChars items) = items := by
  induction items generalizing n with
  | nil => cases n <;> rfl
  | cons s items ih =>
      rw [List.length_cons] at h
      cases n with
      | zero => omega
      | succ n =>
          cases items with
          | nil =>
              rw [itemsChars, List.cons_append, readItems, JsonString.readChars_append,
                String.ofList_toList]
              rfl
          | cons t items =>
              rw [itemsChars, List.cons_append, readItems, JsonString.readChars_append,
                String.ofList_toList]
              exact congrArg (s :: ·) (ih (by omega))

theorem length_le_itemsChars (items : List String) :
    items.length ≤ (itemsChars items).length := by
  induction items with
  | nil => exact Nat.zero_le _
  | cons s items ih =>
      cases items with
      | nil => simp [itemsChars]
      | cons t items =>
          rw [itemsChars]
          simp only [List.cons_append, List.length_cons, List.length_append] at ih ⊢
          omega

theorem jsonLists_roundTrips : jsonLists.RoundTrips := by
  intro items
  unfold jsonLists
  dsimp only
  rw [String.toList_ofList, List.length_cons, List.tail_cons,
    readItems_itemsChars items (by have := length_le_itemsChars items; omega)]

/-- A null message between two others, and a restart. -/
theorem console_survives_restart_two :
    [some "b", none, some "a"].foldl insertMessage [] = ["a", "b"] ∧
      restoreConsole jsonLists
          (saveConsoleContent jsonLists (fun _ => none) ["a", "b"] "PREF_KEY_SYSTEM_CONSOLE") []
          "PREF_KEY_SYSTEM_CONSOLE" = .ok ["a", "b"] :=
  console_survives_restart jsonLists_roundTrips (fun _ => none) [some "b", none, some "a"]
    "PREF_KEY_SYSTEM_CONSOLE"

end MobiPerf.Scheduler
