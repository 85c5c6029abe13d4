import Mathlib.Logic.Function.Basic
import MobiPerf.Lib.Renewal
import MobiPerf.Lib.Transition
import MobiPerf.Scheduler.Task

/-!
# Checkin.Cookie — the cookie of a check-in

The cookie a request carries is kept in three places: `authCookie`, the future
`checkinFuture` of the account selector, and the requests under way that have
read it. Check-ins run on threads of their own; authentications run beside them,
from `authenticate` over the callback of the account manager to the
`GetCookieTask` that returns a cookie. Every access to what they share is a step.

The account is one that is not anonymous and the server is not a testing server.
A cookie is any value, and what was done with cookies is a log of `Lib.Renewal`:
a request *uses* one, a failed check-in *withdraws* the one in `authCookie`, an
authentication is *requested* and *grants* one.

* `noReuse_runs`: no cookie is used after a check-in failed with it, unless a
  later authentication returned it, in the runs in which a check-in that fails
  leaves its cookie nowhere else.
* A check-in that fails does not touch the future (`not_noReuse_finishedFuture`).
-/

namespace MobiPerf.Checkin

open Lib Scheduler

/-! ## State -/

/-- The last part of a request's URL. -/
inductive Url where
  | postmeasurement
  | checkin
deriving DecidableEq, Repr

/-- Where a check-in's thread is, with the local variables that are still read. -/
inductive Pc (C : Type) where
  | idle
  /-- before `uploadResults` -/
  | upload
  /-- at the head of `getCookie` -/
  | getCookie
  /-- the steps of `authenticate`, which hold the lock -/
  | lastAuth
  | authTest (isRecent : Bool)
  | account
  /-- `checkin` before its request -/
  | status
  /-- the steps of `serviceRequest` -/
  | request (url : Url)
  | lock (url : Url)
  /-- in `checkGetCookie`, with the future it has read -/
  | future (url : Url) (a : ℕ)
  | client (url : Url)
  | header (url : Url) (store : Option C)
  | execute (url : Url) (store header : Option C)
  | response (url : Url)
  /-- the two lines of `finally` in `checkin` -/
  | setAuthImmediately
  | dropCookie
  /-- the `catch` of the thread's `run` -/
  | catchException
  /-- `resetCheckin` -/
  | resetCheckin
  | resetFlag
deriving DecidableEq, Repr

/-- How a part of a check-in ends. -/
inductive Outcome where
  | ok
  | ioException
  | runtimeException
deriving DecidableEq, Repr

/-- What a step of a thread is told. -/
inductive Io where
  | go
  | results (anyFinished : Bool)
  | clock (now : Int)
  | ends (o : Outcome)
deriving DecidableEq, Repr

/-- An authentication, from its start to the end of its `GetCookieTask`. -/
inductive AuthStatus (C : Type) where
  | unused
  | started
  | submitted
  | returned (c : C)
  | threw
deriving DecidableEq, Repr

/-- The fields of `Checkin`, of its account selector and of the retries, the
threads, and the log. `monitor` is the lock of the `Checkin` object. -/
structure State (C : Type) where
  authCookie : Option C
  checkinFuture : Option ℕ
  lastAuthTime : Int
  authImmediately : Bool
  isAnonymous : Bool
  auths : ℕ → AuthStatus C
  nextAuth : ℕ
  /-- the queue of `checkinExecutor`, which has one thread -/
  submitted : List ℕ
  checkinRetryCnt : ℕ
  checkinRetryIntervalSec : Int
  checkinIntervalSec : Int
  monitor : Option ℕ
  pc : ℕ → Pc C
  log : List (Renewal ℕ C)

variable {C : Type}

def State.goto (s : State C) (t : ℕ) (pc : Pc C) : State C :=
  { s with pc := Function.update s.pc t pc }

/-! ## Steps -/

def authenticatePeriodMsec : Int := 24 * 3600 * 1000

def minCheckinRetryIntervalSec : Int := 20

def maxCheckinRetryIntervalSec : Int := 600

def maxCheckinRetryCount : ℕ := 3

/-- Where an `IOException` of a request leads: `uploadResults` catches it. -/
def Url.ioException : Url → Pc C
  | .postmeasurement => .getCookie
  | .checkin => .setAuthImmediately

/-- Where any other exception leads. -/
def Url.runtimeException : Url → Pc C
  | .postmeasurement => .catchException
  | .checkin => .setAuthImmediately

/-- Where a request leads whose response is in. -/
def Url.responded : Url → Outcome → Pc C
  | .postmeasurement, .runtimeException => .catchException
  | .postmeasurement, _ => .getCookie
  | .checkin, .ok => .resetCheckin
  | .checkin, _ => .setAuthImmediately

def State.threadStep (t : ℕ) (io : Io) (s : State C) : Option (State C) :=
  match s.pc t, io with
  | .idle, .go => some (s.goto t .upload)
  | .upload, .results anyFinished =>
    some (s.goto t (if anyFinished then .request .postmeasurement else .getCookie))
  | .getCookie, .go =>
    if s.monitor.isSome then none
    else
      -- authenticates if there are no ongoing ones
      match s.checkinFuture with
      | some _ => some (s.goto t .status)
      | none => some { s.goto t .lastAuth with monitor := some t }
  | .lastAuth, .clock now =>
    some (s.goto t (.authTest (s.lastAuthTime ≠ 0 ∧
      toLong (now - s.lastAuthTime) < authenticatePeriodMsec)))
  | .authTest isRecent, .go =>
    if ¬ s.authImmediately ∧ isRecent then some { s.goto t .status with monitor := none }
    else some { s.goto t .account with isAnonymous := true }
  | .account, .go =>
    some { s.goto t .status with
      isAnonymous := false
      monitor := none
      auths := Function.update s.auths s.nextAuth .started
      nextAuth := s.nextAuth + 1
      log := .requested s.nextAuth :: s.log }
  | .status, .ends o =>
    some (s.goto t (if o = .ok then .request .checkin else .setAuthImmediately))
  | .request url, .go => some (s.goto t (if s.isAnonymous then .client url else .lock url))
  | .lock url, .go =>
    if s.monitor.isSome then none
    else
      match s.authCookie, s.checkinFuture with
      | some _, _ => some (s.goto t (.client url))
      | none, none => some (s.goto t url.ioException)
      | none, some a => some { s.goto t (.future url a) with monitor := some t }
  | .future url a, .go =>
    match s.auths a with
    | .returned c => some { s.goto t (.client url) with authCookie := some c, monitor := none }
    | _ => some { s.goto t url.ioException with monitor := none }
  | .client url, .go => some (s.goto t (.header url s.authCookie))
  | .header url store, .go =>
    if s.isAnonymous then some (s.goto t (.execute url store none))
    else
      match s.authCookie with
      | none => some (s.goto t url.runtimeException)
      | some c => some (s.goto t (.execute url store (some c)))
  | .execute url store header, .go =>
    some { s.goto t (.response url) with
      log := (header.toList ++ store.toList).map .used ++ s.log }
  | .response url, .ends o => some (s.goto t (url.responded o))
  | .setAuthImmediately, .go => some { s.goto t .dropCookie with authImmediately := true }
  | .dropCookie, .go =>
    some { s.goto t .catchException with
      authCookie := none
      log := s.authCookie.toList.map .withdrawn ++ s.log }
  | .catchException, .go =>
    if s.checkinRetryCnt > maxCheckinRetryCount then some (s.goto t .resetCheckin)
    else if s.checkinRetryIntervalSec < s.checkinIntervalSec then
      some { s.goto t .idle with
        checkinRetryCnt := s.checkinRetryCnt + 1
        checkinRetryIntervalSec :=
          min maxCheckinRetryIntervalSec (s.checkinRetryIntervalSec * 2) }
    else some (s.goto t .idle)
  | .resetCheckin, .go =>
    some { s.goto t .resetFlag with
      checkinRetryCnt := 0
      checkinRetryIntervalSec := minCheckinRetryIntervalSec
      checkinFuture := none }
  | .resetFlag, .go => some { s.goto t .idle with authImmediately := false }
  | _, _ => none

/-- A step of a check-in's thread, of the account manager's callback for an
authentication, or of the `GetCookieTask` at the head of the executor's queue. -/
inductive Label (C : Type) where
  | thread (t : ℕ) (io : Io)
  | callback (a : ℕ)
  | callbackThrows (a : ℕ)
  | cookieReturned (c : C) (now : Int)
  | cookieThrew
deriving DecidableEq, Repr

def State.step (label : Label C) (s : State C) : Option (State C) :=
  match label with
  | .thread t io => s.threadStep t io
  | .callback a =>
    match s.auths a with
    | .started =>
      some { s with
        auths := Function.update s.auths a .submitted
        checkinFuture := some a
        submitted := s.submitted ++ [a] }
    | _ => none
  | .callbackThrows a =>
    match s.auths a with
    | .started => some { s with auths := Function.update s.auths a .threw }
    | _ => none
  | .cookieReturned c now =>
    match s.submitted with
    | [] => none
    | a :: rest =>
      some { s with
        auths := Function.update s.auths a (.returned c)
        lastAuthTime := now
        submitted := rest
        log := .granted a c :: s.log }
  | .cookieThrew =>
    match s.submitted with
    | [] => none
    | a :: rest =>
      some { s with
        auths := Function.update s.auths a .threw
        checkinFuture := none
        submitted := rest }

/-- The service right after `onCreate`, with no check-in under way. -/
def State.created (checkinIntervalSec : Int) : State C where
  authCookie := none
  checkinFuture := none
  lastAuthTime := 0
  authImmediately := false
  isAnonymous := true
  auths := fun _ => .unused
  nextAuth := 0
  submitted := []
  checkinRetryCnt := 0
  checkinRetryIntervalSec := minCheckinRetryIntervalSec
  checkinIntervalSec := checkinIntervalSec
  monitor := none
  pc := fun _ => .idle
  log := []

/-- The interleavings of any number of check-ins and authentications. -/
def checkins (C : Type) : System (State C) (Label C) where
  Init s := ∃ checkinIntervalSec, s = State.created checkinIntervalSec
  step := State.step

/-! ## Where a cookie is -/

/-- The cookies a thread has read for its request. -/
def Pc.cookies : Pc C → List C
  | .header _ store => store.toList
  | .execute _ store cookie => cookie.toList ++ store.toList
  | _ => []

/-- The future a thread has read. -/
def Pc.futureRead : Pc C → Option ℕ
  | .future _ a => some a
  | _ => none

/-- The future of authentication `a` is the account selector's, or one a thread
has read. -/
def State.Held (s : State C) (a : ℕ) : Prop :=
  s.checkinFuture = some a ∨ ∃ t, (s.pc t).futureRead = some a

/-- The cookie can still get into a request. -/
def State.Carries (s : State C) (c : C) : Prop :=
  s.authCookie = some c ∨ (∃ t, c ∈ (s.pc t).cookies) ∨ ∃ a, s.Held a ∧ s.auths a = .returned c

/-- A check-in that fails with cookie `c` leaves it nowhere else: no future that
is held has returned `c`, and no other thread has read it for its request. And a
future that is held returns `c` only if its authentication started after the
check-ins that failed with `c`, or `c` has been renewed since. -/
def CookieDropped : Label C → State C → Prop
  | .thread t _, s => s.pc t = .dropCookie → ∀ c, s.authCookie = some c →
      (∀ a, s.Held a → s.auths a ≠ .returned c) ∧ ∀ t', c ∉ (s.pc t').cookies
  | .cookieReturned c _, s => ∀ a, s.submitted.head? = some a → s.Held a →
      ∀ since earlier, s.log = since ++ .withdrawn c :: earlier →
        Renewal.Renewed since c ∨ .requested a ∈ since
  | _, _ => True

/-! ## What a step does with cookies -/

/-- An authentication that has not returned gives no cookie. -/
theorem returned_of_update {auths : ℕ → AuthStatus C} {a b : ℕ} {status : AuthStatus C} {c : C}
    (h : Function.update auths a status b = .returned c) (hstatus : status ≠ .returned c) :
    auths b = .returned c := by
  by_cases hb : b = a
  · subst hb
    rw [Function.update_self] at h
    exact absurd h hstatus
  · rwa [Function.update_of_ne hb] at h

/-- A thread moved to `pc`, and no future came up that was not held. -/
theorem held_of_moved {s s' : State C} (t : ℕ) (pc : Pc C)
    (hpc : s'.pc = Function.update s.pc t pc)
    (hfuture : ∀ a, s'.checkinFuture = some a → s.Held a)
    (hread : ∀ a, pc.futureRead = some a → s.Held a) : ∀ a, s'.Held a → s.Held a := by
  rintro a (ha | ⟨t', ha⟩)
  · exact hfuture a ha
  · rw [hpc] at ha
    by_cases ht : t' = t
    · subst ht
      rw [Function.update_self] at ha
      exact hread a ha
    · rw [Function.update_of_ne ht] at ha
      exact .inr ⟨t', ha⟩

/-- A thread moved to `pc`, and whatever else changed brought no cookie and no
future that was not there. -/
theorem carries_of_moved {s s' : State C} (t : ℕ) (pc : Pc C)
    (hpc : s'.pc = Function.update s.pc t pc)
    (hcookie : ∀ c, s'.authCookie = some c → s.Carries c)
    (hcookies : ∀ c ∈ pc.cookies, s.Carries c)
    (hfuture : ∀ a, s'.checkinFuture = some a → s.Held a)
    (hread : ∀ a, pc.futureRead = some a → s.Held a)
    (hauths : ∀ a c, s'.auths a = .returned c → s.auths a = .returned c) :
    ∀ c, s'.Carries c → s.Carries c := by
  intro c h
  rcases h with h | ⟨t', h⟩ | ⟨a, ha, h⟩
  · exact hcookie c h
  · rw [hpc] at h
    by_cases ht : t' = t
    · subst ht
      rw [Function.update_self] at h
      exact hcookies c h
    · rw [Function.update_of_ne ht] at h
      exact .inr (.inl ⟨t', h⟩)
  · exact .inr (.inr ⟨a, held_of_moved t pc hpc hfuture hread a ha, hauths a c h⟩)

/-- A thread moves, and nothing else changes that has to do with cookies. -/
theorem carries_goto {s s' : State C} (t : ℕ) (pc : Pc C)
    (hpc : s'.pc = Function.update s.pc t pc) (hcookie : s'.authCookie = s.authCookie)
    (hfuture : s'.checkinFuture = s.checkinFuture) (hauths : s'.auths = s.auths)
    (hcookies : ∀ c ∈ pc.cookies, s.Carries c)
    (hread : ∀ a, pc.futureRead = some a → s.Held a) : ∀ c, s'.Carries c → s.Carries c := by
  refine carries_of_moved t pc hpc ?_ hcookies ?_ hread ?_
  · intro d hd
    exact .inl (hcookie ▸ hd)
  · intro a ha
    exact .inl (hfuture ▸ ha)
  · intro a d hd
    rw [← hauths]
    exact hd

/-- An authentication goes on without returning a cookie, and no future but its own
came to be held. -/
theorem carries_of_auths {s s' : State C} {a : ℕ} {status : AuthStatus C} (hpc : s'.pc = s.pc)
    (hcookie : s'.authCookie = s.authCookie)
    (hauths : s'.auths = Function.update s.auths a status) (hstatus : ∀ c, status ≠ .returned c)
    (hfuture : ∀ b, s'.checkinFuture = some b → s.checkinFuture = some b ∨ b = a) :
    ∀ c, s'.Carries c → s.Carries c := by
  intro c h
  rcases h with h | ⟨t, h⟩ | ⟨b, hb, h⟩
  · exact .inl (hcookie ▸ h)
  · rw [hpc] at h
    exact .inr (.inl ⟨t, h⟩)
  · rw [hauths] at h
    have hreturned := returned_of_update h (hstatus c)
    rcases hb with hb | ⟨t, hb⟩
    · rcases hfuture b hb with hold | rfl
      · exact .inr (.inr ⟨b, .inl hold, hreturned⟩)
      · -- its own future has returned nothing
        rw [Function.update_self] at h
        exact absurd h (hstatus c)
    · rw [hpc] at hb
      exact .inr (.inr ⟨b, .inr ⟨t, hb⟩, hreturned⟩)

/-- An authentication returns a cookie: that one alone is new, and only if its future is
held. -/
theorem carries_of_returned {s s' : State C} {a : ℕ} {c d : C} (h : s'.Carries d)
    (hpc : s'.pc = s.pc) (hcookie : s'.authCookie = s.authCookie)
    (hfuture : s'.checkinFuture = s.checkinFuture)
    (hauths : s'.auths = Function.update s.auths a (.returned c)) :
    s.Carries d ∨ d = c ∧ s.Held a := by
  rcases h with h | ⟨t, h⟩ | ⟨b, hb, h⟩
  · exact .inl (.inl (hcookie ▸ h))
  · rw [hpc] at h
    exact .inl (.inr (.inl ⟨t, h⟩))
  · have hheld : s.Held b := by
      unfold State.Held at hb ⊢
      rwa [hfuture, hpc] at hb
    rw [hauths] at h
    by_cases hba : b = a
    · subst hba
      rw [Function.update_self] at h
      cases h
      exact .inr ⟨rfl, hheld⟩
    · rw [Function.update_of_ne hba] at h
      exact .inl (.inr (.inr ⟨b, hheld, h⟩))

/-- What a thread's step does with cookies: it brings none, and logs a request's
cookies, the start of an authentication, or the cookie it drops. -/
inductive Effect (t : ℕ) (s s' : State C) : Prop where
  | quiet (hlog : s'.log = s.log) (hsub : ∀ c, s'.Carries c → s.Carries c)
  | requested (a : ℕ) (hlog : s'.log = .requested a :: s.log)
      (hsub : ∀ c, s'.Carries c → s.Carries c)
  | used (cs : List C) (hlog : s'.log = cs.map .used ++ s.log) (hcs : ∀ c ∈ cs, s.Carries c)
      (hsub : ∀ c, s'.Carries c → s.Carries c)
  | withdrawn (hpc : s.pc t = .dropCookie)
      (hs' : s' = { s.goto t .catchException with
        authCookie := none
        log := s.authCookie.toList.map .withdrawn ++ s.log })

/-- A move to a place where nothing is read. -/
theorem Effect.goto {s s' : State C} {t : ℕ} {pc : Pc C}
    (hpc : s'.pc = Function.update s.pc t pc) (hlog : s'.log = s.log)
    (hcookie : s'.authCookie = s.authCookie) (hfuture : s'.checkinFuture = s.checkinFuture)
    (hauths : s'.auths = s.auths) (hcookies : pc.cookies = []) (hread : pc.futureRead = none) :
    Effect t s s' := by
  refine .quiet hlog (carries_goto t pc hpc hcookie hfuture hauths ?_ ?_)
  · rw [hcookies]
    exact fun d hd => absurd hd List.not_mem_nil
  · rw [hread]
    exact nofun

/-- No outcome of a request is a place where anything is read. -/
theorem Url.reads_nothing (url : Url) (o : Outcome) (pc : Pc C)
    (h : pc = url.ioException ∨ pc = url.runtimeException ∨ pc = url.responded o) :
    pc.cookies = [] ∧ pc.futureRead = none := by
  cases url <;> cases o <;> rcases h with rfl | rfl | rfl <;> exact ⟨rfl, rfl⟩

theorem threadStep_effect {s s' : State C} {t : ℕ} {io : Io}
    (h : s.threadStep t io = some s') : Effect t s s' := by
  unfold State.threadStep at h
  split at h
  · -- idle, upload
    cases h
    exact .goto rfl rfl rfl rfl rfl rfl rfl
  · rename_i anyFinished _
    cases h
    cases anyFinished <;> exact .goto rfl rfl rfl rfl rfl rfl rfl
  · -- getCookie and authenticate
    split at h
    · cases h
    · split at h <;> cases h <;> exact .goto rfl rfl rfl rfl rfl rfl rfl
  · cases h
    exact .goto rfl rfl rfl rfl rfl rfl rfl
  · split at h <;> cases h <;> exact .goto rfl rfl rfl rfl rfl rfl rfl
  · cases h
    refine .requested s.nextAuth rfl (carries_of_moved t .status rfl (fun _ => .inl)
      nofun (fun _ => .inl) nofun ?_)
    exact fun _ _ hd => returned_of_update hd nofun
  · -- checkin and serviceRequest
    rename_i o _
    cases h
    cases o <;> exact .goto rfl rfl rfl rfl rfl rfl rfl
  · cases h
    cases s.isAnonymous <;> exact .goto rfl rfl rfl rfl rfl rfl rfl
  · rename_i url _
    split at h
    · cases h
    · split at h
      · cases h
        exact .goto rfl rfl rfl rfl rfl rfl rfl
      · cases h
        have hpc := url.reads_nothing (C := C) .ok url.ioException (.inl rfl)
        exact .goto rfl rfl rfl rfl rfl hpc.1 hpc.2
      · rename_i a _ hfuture
        cases h
        refine .quiet rfl (carries_goto t (.future url a) rfl rfl rfl rfl nofun ?_)
        rintro b ⟨⟩
        exact .inl hfuture
  · rename_i url a hpc
    split at h
    · rename_i c hreturned
      cases h
      have ha : s.Held a := .inr ⟨t, by rw [hpc]; rfl⟩
      refine .quiet rfl (carries_of_moved t (.client url) rfl ?_ nofun (fun _ => .inl) nofun
        fun _ _ hd => hd)
      -- the cookie of the future it has read
      rintro d ⟨⟩
      exact .inr (.inr ⟨a, ha, hreturned⟩)
    · cases h
      have hpc := url.reads_nothing (C := C) .ok url.ioException (.inl rfl)
      exact .goto rfl rfl rfl rfl rfl hpc.1 hpc.2
  · rename_i url _
    cases h
    refine .quiet rfl (carries_goto t (.header url s.authCookie) rfl rfl rfl rfl ?_ nofun)
    exact fun d hd => .inl (Option.mem_toList.mp hd)
  · rename_i url store hpc
    have hstore : ∀ d ∈ store.toList, s.Carries d :=
      fun d hd => .inr (.inl ⟨t, by rw [hpc]; exact hd⟩)
    split at h
    · cases h
      exact .quiet rfl
        (carries_goto t (.execute url store none) rfl rfl rfl rfl hstore nofun)
    · split at h
      · cases h
        have hpc := url.reads_nothing (C := C) .ok url.runtimeException (.inr (.inl rfl))
        exact .goto rfl rfl rfl rfl rfl hpc.1 hpc.2
      · rename_i c hcookie
        cases h
        refine .quiet rfl
          (carries_goto t (.execute url store (some c)) rfl rfl rfl rfl ?_ nofun)
        intro d hd
        rcases List.mem_append.mp hd with hd | hd
        · cases List.mem_singleton.mp hd
          exact .inl hcookie
        · exact hstore d hd
  · rename_i url store header hpc
    cases h
    refine .used (header.toList ++ store.toList) rfl ?_ ?_
    · exact fun c hc => .inr (.inl ⟨t, by rw [hpc]; exact hc⟩)
    · exact carries_goto t (.response url) rfl rfl rfl rfl nofun nofun
  · rename_i url o hpc
    cases h
    have hpc := url.reads_nothing (C := C) o (url.responded o) (.inr (.inr rfl))
    exact .goto rfl rfl rfl rfl rfl hpc.1 hpc.2
  · -- the ways a check-in ends
    cases h
    exact .goto rfl rfl rfl rfl rfl rfl rfl
  · rename_i hpc
    cases h
    exact .withdrawn hpc rfl
  · split at h
    · cases h
      exact .goto rfl rfl rfl rfl rfl rfl rfl
    · split at h <;> cases h <;> exact .goto rfl rfl rfl rfl rfl rfl rfl
  · cases h
    exact .quiet rfl (carries_of_moved t .resetFlag rfl (fun _ => .inl) nofun nofun nofun
      fun _ _ hd => hd)
  · cases h
    exact .goto rfl rfl rfl rfl rfl rfl rfl
  · cases h

/-- Dropped from `authCookie`, a cookie that is nowhere else is gone. -/
theorem not_carries_dropped {s : State C} {t : ℕ} {c : C} {log : List (Renewal ℕ C)}
    (hfutures : ∀ a, s.Held a → s.auths a ≠ .returned c)
    (hthreads : ∀ t', c ∉ (s.pc t').cookies) :
    ¬ { s.goto t .catchException with authCookie := none, log := log }.Carries c := by
  rintro (hc | ⟨t', hc⟩ | ⟨a, ha, hc⟩)
  · cases hc
  · dsimp only [State.goto] at hc
    by_cases ht : t' = t
    · subst ht
      rw [Function.update_self] at hc
      cases hc
    · rw [Function.update_of_ne ht] at hc
      exact hthreads t' hc
  · refine hfutures a (held_of_moved (s := s) t .catchException ?_ ?_ nofun a ha) hc
    · rfl
    · exact fun _ => .inl

/-! ## Runs -/

theorem step_safe {label : Label C} {s s' : State C} (h : Renewal.Safe s.log s.Carries)
    (hok : CookieDropped label s) (hstep : (checkins C).step label s = some s') :
    Renewal.Safe s'.log s'.Carries := by
  cases label with
  | thread t io =>
      cases threadStep_effect hstep with
      | quiet hlog hsub =>
          rw [hlog]
          exact h.mono hsub
      | requested a hlog hsub =>
          rw [hlog]
          exact (h.mono hsub).request a
      | used cs hlog hcs hsub =>
          rw [hlog]
          exact (h.useAll hcs).mono hsub
      | withdrawn hpc hs' =>
          have hlog : s'.log = s.authCookie.toList.map .withdrawn ++ s.log := by rw [hs']
          have hsub : ∀ c, s'.Carries c → s.Carries c := by
            subst hs'
            exact carries_of_moved t .catchException rfl nofun nofun (fun _ => .inl) nofun
              fun _ _ hd => hd
          rw [hlog]
          cases hcookie : s.authCookie with
          | none =>
              -- a request that failed without a cookie
              exact h.mono hsub
          | some c =>
              rcases hok hpc c hcookie with ⟨hfutures, hthreads⟩
              subst hs'
              exact (h.mono hsub).withdraw (not_carries_dropped hfutures hthreads)
  | callback a =>
      unfold checkins State.step at hstep
      dsimp only at hstep
      split at hstep
      · cases hstep
        refine h.mono (carries_of_auths rfl rfl rfl (fun _ => nofun) ?_)
        rintro b ⟨⟩
        exact .inr rfl
      · cases hstep
  | callbackThrows a =>
      unfold checkins State.step at hstep
      dsimp only at hstep
      split at hstep
      · cases hstep
        exact h.mono (carries_of_auths rfl rfl rfl (fun _ => nofun) fun _ => .inl)
      · cases hstep
  | cookieReturned c now =>
      unfold checkins State.step at hstep
      dsimp only at hstep
      split at hstep
      · cases hstep
      · rename_i a rest hsubmitted
        cases hstep
        have hhead : s.submitted.head? = some a := by rw [hsubmitted]; rfl
        -- only a future that is held can bring the cookie back into a request
        by_cases ha : s.Held a
        · refine (h.grant (hok a hhead ha)).mono ?_
          intro d hd
          have hnew : s.Carries d ∨ d = c ∧ s.Held a := carries_of_returned hd rfl rfl rfl rfl
          exact hnew.imp_right And.left
        · refine (h.grant_unheld a c).mono ?_
          intro d hd
          have hnew : s.Carries d ∨ d = c ∧ s.Held a := carries_of_returned hd rfl rfl rfl rfl
          exact hnew.resolve_right fun hheld => ha hheld.2
  | cookieThrew =>
      unfold checkins State.step at hstep
      dsimp only at hstep
      split at hstep
      · cases hstep
      · cases hstep
        refine h.mono (carries_of_auths rfl rfl rfl (fun _ => nofun) ?_)
        intro b hb
        cases hb

/-- Where every check-in that fails leaves its cookie nowhere else, no cookie is
used after a check-in failed with it, unless an authentication started since has
returned it. -/
theorem noReuse_runs {s : State C} (h : (checkins C).ReachableBy CookieDropped s) :
    Renewal.NoReuse s.log := by
  have hsafe : Renewal.Safe s.log s.Carries := by
    refine h.invariant (P := fun s => Renewal.Safe s.log s.Carries) ?_ ?_
    · rintro s₀ ⟨checkinIntervalSec, rfl⟩
      exact Renewal.safe_nil
    · exact fun label s s' hs hok => step_safe hs hok
  exact hsafe.noReuse

/-! ## Executed runs -/

/-- Only thread 0 checks in, a check-in fails only after one that succeeded has
dropped the future, and no cookie comes back that was withdrawn. -/
def FutureDropped : Label C → State C → Prop
  | .thread t _, s => t = 0 ∧ (s.pc t = .dropCookie → s.checkinFuture = none)
  | .cookieReturned c _, s => .withdrawn c ∉ s.log
  | _, _ => True

instance [DecidableEq C] (label : Label C) (s : State C) : Decidable (FutureDropped label s) :=
  match label with
  | .thread _ _ => inferInstanceAs (Decidable (_ ∧ (_ → _)))
  | .callback _ => isTrue trivial
  | .callbackThrows _ => isTrue trivial
  | .cookieReturned _ _ => inferInstanceAs (Decidable (_ ∉ _))
  | .cookieThrew => isTrue trivial

/-- Where the other threads are idle, nothing else holds the cookie. -/
theorem FutureDropped.cookieDropped {label : Label C} {s : State C}
    (hidle : ∀ t, t ≠ 0 → s.pc t = .idle) (h : FutureDropped label s) :
    CookieDropped label s := by
  cases label with
  | thread t io =>
      rcases h with ⟨rfl, hfuture⟩
      intro hpc c _
      have hidle' : ∀ t', (s.pc t').futureRead = none ∧ (s.pc t').cookies = [] := by
        intro t'
        by_cases ht' : t' = 0
        · rw [ht', hpc]
          exact ⟨rfl, rfl⟩
        · rw [hidle t' ht']
          exact ⟨rfl, rfl⟩
      constructor
      · rintro a (ha | ⟨t', ha⟩)
        · rw [hfuture hpc] at ha
          cases ha
        · rw [(hidle' t').1] at ha
          cases ha
      · intro t'
        rw [(hidle' t').2]
        exact List.not_mem_nil
  | cookieReturned c now =>
      intro a _ _ since earlier hlog
      refine absurd ?_ h
      rw [hlog]
      exact List.mem_append_right _ List.mem_cons_self
  | _ => trivial

/-- A step of another thread than `t` leaves `t` where it is. -/
theorem threadStep_pc {s s' : State C} {t t' : ℕ} {io : Io}
    (h : s.threadStep t io = some s') (ht : t' ≠ t) : s'.pc t' = s.pc t' := by
  have hpc : ∃ pc, s'.pc = Function.update s.pc t pc := by
    unfold State.threadStep at h
    repeat' split at h
    all_goals cases h
    all_goals exact ⟨_, rfl⟩
  rcases hpc with ⟨pc, hpc⟩
  rw [hpc, Function.update_of_ne ht]

theorem step_idle {label : Label C} {s s' : State C} (hidle : ∀ t, t ≠ 0 → s.pc t = .idle)
    (h : FutureDropped label s) (hstep : (checkins C).step label s = some s') :
    ∀ t, t ≠ 0 → s'.pc t = .idle := by
  intro t ht
  cases label with
  | thread t' io =>
      rcases h with ⟨rfl, -⟩
      rw [threadStep_pc hstep ht]
      exact hidle t ht
  | _ =>
      -- an authentication moves no thread
      unfold checkins State.step at hstep
      dsimp only at hstep
      split at hstep
      all_goals cases hstep
      all_goals exact hidle t ht

/-- The first check-in, up to its request: the authentication it starts has
returned cookie 7 when the request needs it. -/
def firstRequest : List (Label ℕ) :=
  [.thread 0 .go, .thread 0 (.results false), .thread 0 .go, .thread 0 (.clock 0),
    .thread 0 .go, .thread 0 .go, .callback 0, .cookieReturned 7 1000, .thread 0 (.ends .ok),
    .thread 0 .go, .thread 0 .go, .thread 0 .go, .thread 0 .go, .thread 0 .go, .thread 0 .go]

/-- It succeeds. The second check-in has no need to authenticate, sends the cookie
it has kept, and fails. -/
def keptCookieFails : List (Label ℕ) :=
  [.thread 0 (.ends .ok), .thread 0 .go, .thread 0 .go,
    .thread 0 .go, .thread 0 (.results false), .thread 0 .go, .thread 0 (.clock 2000),
    .thread 0 .go, .thread 0 (.ends .ok), .thread 0 .go, .thread 0 .go, .thread 0 .go,
    .thread 0 .go, .thread 0 .go, .thread 0 (.ends .ioException), .thread 0 .go, .thread 0 .go,
    .thread 0 .go]

/-- The retry authenticates at once, and its request takes the cookie 8 that the
authentication returned. -/
def renewedRequest : List (Label ℕ) :=
  [.thread 0 .go, .thread 0 (.results false), .thread 0 .go, .thread 0 (.clock 3000),
    .thread 0 .go, .thread 0 .go, .callback 1, .cookieReturned 8 4000, .thread 0 (.ends .ok),
    .thread 0 .go, .thread 0 .go, .thread 0 .go, .thread 0 .go, .thread 0 .go, .thread 0 .go]

theorem noReuse_runs_renewedRequest :
    ∃ s : State ℕ, s.log = [.used 8, .used 8, .granted 1 8, .requested 1, .withdrawn 7,
        .used 7, .used 7, .used 7, .used 7, .granted 0 7, .requested 0] ∧
      Renewal.NoReuse s.log := by
  have hrun : ((checkins ℕ).runBy FutureDropped
      (firstRequest ++ keptCookieFails ++ renewedRequest) (.created 3600)).any
      fun s => decide (s.log = [.used 8, .used 8, .granted 1 8, .requested 1, .withdrawn 7,
        .used 7, .used 7, .used 7, .used 7, .granted 0 7, .requested 0]) := by
    decide +kernel
  rcases (Option.any_eq_true _ _).mp hrun with ⟨s, hsteps, hs⟩
  have hreach : (checkins ℕ).ReachableBy FutureDropped s :=
    ⟨_, ⟨3600, rfl⟩, System.steps_of_runBy hsteps⟩
  refine ⟨s, of_decide_eq_true hs, noReuse_runs (hreach.mono_of
    (P := fun s => ∀ t, t ≠ 0 → s.pc t = .idle) ?_ ?_ ?_)⟩
  · rintro s₀ ⟨checkinIntervalSec, rfl⟩ t _
    rfl
  · exact fun label s s' hidle => step_idle hidle
  · exact fun label s hidle => FutureDropped.cookieDropped hidle

/-- The request fails, and the retry sends the cookie again: the future that
returned it is still the account selector's. -/
theorem not_noReuse_finishedFuture :
    ∃ s : State ℕ, (checkins ℕ).Reachable s ∧ ¬ Renewal.NoReuse s.log := by
  have hrun : ((checkins ℕ).run (firstRequest ++
      [.thread 0 (.ends .ioException), .thread 0 .go, .thread 0 .go, .thread 0 .go,
        .thread 0 .go, .thread 0 (.results false), .thread 0 .go, .thread 0 (.ends .ok),
        .thread 0 .go, .thread 0 .go, .thread 0 .go, .thread 0 .go, .thread 0 .go, .thread 0 .go])
      (.created 3600)).any
      fun s => decide (s.log = .used 7 :: .used 7 :: .withdrawn 7 :: s.log.drop 3) := by
    decide +kernel
  rcases (Option.any_eq_true _ _).mp hrun with ⟨s, hsteps, hs⟩
  have hlog : s.log = .used 7 :: .used 7 :: .withdrawn 7 :: s.log.drop 3 := of_decide_eq_true hs
  refine ⟨s, System.reachable_of_run ⟨3600, rfl⟩ hsteps, fun hno => ?_⟩
  refine hno [] (.used 7 :: .withdrawn 7 :: s.log.drop 3) 7 hlog ?_
  -- between the failure and the request there is a use, and no authentication
  refine ⟨[.used 7], s.log.drop 3, rfl, ?_⟩
  rintro ⟨a, ha, -⟩
  simp at ha

end MobiPerf.Checkin
