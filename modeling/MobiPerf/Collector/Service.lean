import Mathlib.Logic.Function.Basic
import MobiPerf.Lib.Statement

/-!
# Collector.Service — starting and stopping the trace collectors

`DataCollectorService` starts a dozen collectors one after the other in one
`try` block and stops them in another. A collector is a timer with a scheduled
task, a registered receiver or listener, or a view put over the screen.

Conventions of the model:

* the timer and receiver fields are functions of the field's name, `none` is
  `null`; an object made by `new` is a number that was not used before;
* a call into the system may throw; the environment of a start (`SysEnv`) says
  which ones do. The calls of a stop throw what the platform documents
  (`unregisterReceiver` of a receiver that is not registered);
* trace files and the tcpdump process are left out: they have no part in whether
  a collector is active. So is what a timer's task does; one that asks for a
  stop is a stop request.
-/

namespace MobiPerf.Collector

open Lib

/-- The exceptions that matter to a `catch`. -/
inductive Exn where
  | illegalArgument
  | illegalState
  | nullPointer
  | system
deriving DecidableEq, Repr

/-- `java.util.Timer`. -/
structure Timer where
  tasks : ℕ
  cancelled : Bool
deriving DecidableEq, Repr

inductive TimerField where
  | checkScreenBrightness
  | checkLocationService
  | checkCameraLaunch
  | checkSDCardSpace
  | checkAirplaneModeEnabled
deriving DecidableEq, Repr

inductive ReceiverField where
  | mScreenTraceReceiver
  | mBatteryLevelReceiver
  | mBluetoothTraceReceiver
  | mWifiTraceReceiver
  | mBearerChangeReceiver
  | mScreenRotationReceiver
deriving DecidableEq, Repr

/-- The calls into the system that may throw, some of them in a helper method
(`isLocationServiceEnabled`, `recordInitialBearerInfo`) or on a `null` that the
platform may return (the Bluetooth adapter, the list of processes). -/
inductive SysCall where
  | addView
  | registerReceiver (r : ReceiverField)
  | addGpsStatusListener
  | isLocationServiceEnabled
  | listen
  | getDefaultAdapter
  | getRunningAppProcesses
  | recordInitialBearerInfo
deriving DecidableEq, Repr

/-- Which calls throw during one start. -/
abbrev SysEnv := SysCall → Bool

/-- The fields of the service, and what is registered with the system. -/
structure State where
  objects : ℕ
  mView : Option ℕ
  mWindowManager : Bool
  timers : TimerField → Option Timer
  mGPSStatesManager : Bool
  mGPSStatesListner : Option ℕ
  receivers : ReceiverField → Option ℕ
  mTelphoneManager : Bool
  mPhoneStateListener : Option ℕ
  attachedViews : List ℕ
  gpsListeners : List ℕ
  phoneListeners : List ℕ
  registered : List (ReceiverField × ℕ)

/-- A new service: a timer in each timer field, and the four receivers that are
field initializers. -/
def State.created : State where
  objects := 4
  mView := none
  mWindowManager := false
  timers := fun _ => some ⟨0, false⟩
  mGPSStatesManager := false
  mGPSStatesListner := none
  receivers
    | .mScreenTraceReceiver => some 0
    | .mBluetoothTraceReceiver => some 1
    | .mWifiTraceReceiver => some 2
    | .mBearerChangeReceiver => some 3
    | _ => none
  mTelphoneManager := false
  mPhoneStateListener := none
  attachedViews := []
  gpsListeners := []
  phoneListeners := []
  registered := []

abbrev Method := Stmt Exn State

open Stmt

/-! ## The platform -/

/-- A call that has no effect on the state unless it throws. -/
def sysCall (env : SysEnv) (c : SysCall) : Method := fun s =>
  if env c then (some .system, s) else (none, s)

/-- `timer.scheduleAtFixedRate(task, …)`. -/
def scheduleAtFixedRate (f : TimerField) : Method := fun s =>
  match s.timers f with
  | none => (some .nullPointer, s)
  | some t =>
    if t.cancelled then (some .illegalState, s)
    else
      (none, { s with
        timers := Function.update s.timers f (some { t with tasks := t.tasks + 1 }) })

/-- `timer.cancel()`: its tasks are discarded and it takes no others. -/
def cancel (f : TimerField) : Method := fun s =>
  match s.timers f with
  | none => (some .nullPointer, s)
  | some _ => (none, { s with timers := Function.update s.timers f (some ⟨0, true⟩) })

/-- `timer = null`. -/
def nullTimer (f : TimerField) : Method :=
  act fun s => { s with timers := Function.update s.timers f none }

/-- The receiver of a field becomes registered. A `null` receiver is allowed and
not registered. -/
def State.register (r : ReceiverField) (s : State) : State :=
  match s.receivers r with
  | none => s
  | some id => { s with registered := (r, id) :: s.registered }

/-- `registerReceiver(receiver, …)`. -/
def registerReceiver (env : SysEnv) (r : ReceiverField) : Method :=
  block [sysCall env (.registerReceiver r), act (State.register r)]

/-- `unregisterReceiver(receiver)`. -/
def unregisterReceiver (r : ReceiverField) : Method := fun s =>
  match s.receivers r with
  | none => (some .illegalArgument, s)
  | some id =>
    if (r, id) ∈ s.registered then
      (none, { s with registered := s.registered.filter (· ≠ (r, id)) })
    else (some .illegalArgument, s)

/-- `if (receiver == null) receiver = new BroadcastReceiver() …`. -/
def createReceiver (r : ReceiverField) : Method :=
  when (fun s => s.receivers r = none) <| act fun s =>
    { s with receivers := Function.update s.receivers r (some s.objects), objects := s.objects + 1 }

/-- `receiver = null`. -/
def nullReceiver (r : ReceiverField) : Method :=
  act fun s => { s with receivers := Function.update s.receivers r none }

/-- `mView = new View(this)`. -/
def State.newView (s : State) : State :=
  { s with mView := some s.objects, objects := s.objects + 1, mWindowManager := true }

/-- What `addView(mView, …)` does when it does not throw. -/
def State.attachView (s : State) : State :=
  { s with attachedViews := s.mView.toList ++ s.attachedViews }

/-- `mGPSStatesListner = new GPSStatesListener()`. -/
def State.newGpsListener (s : State) : State :=
  { s with
    mGPSStatesManager := true, mGPSStatesListner := some s.objects, objects := s.objects + 1 }

/-- What `addGpsStatusListener(mGPSStatesListner)` does when it does not throw. -/
def State.addGpsListener (s : State) : State :=
  { s with gpsListeners := s.mGPSStatesListner.toList ++ s.gpsListeners }

/-- `mPhoneStateListener = new PhoneStateListener() …`. -/
def State.newPhoneListener (s : State) : State :=
  { s with
    mTelphoneManager := true, mPhoneStateListener := some s.objects, objects := s.objects + 1 }

/-- What `listen(mPhoneStateListener, …)` does when it does not throw. -/
def State.addPhoneListener (s : State) : State :=
  { s with phoneListeners := s.mPhoneStateListener.toList ++ s.phoneListeners }

/-! ## startDataTraceCollection -/

/-- `startTouchScreenCollector`: its exceptions are caught in place. -/
def startTouchScreenCollector (env : SysEnv) : Method :=
  tryCatch (fun _ => true) <|
    block [act State.newView, sysCall env .addView, act State.attachView]

def startScreenTraceMonitor (env : SysEnv) : Method :=
  block [scheduleAtFixedRate .checkScreenBrightness, registerReceiver env .mScreenTraceReceiver]

def startGpsTraceMonitor (env : SysEnv) : Method :=
  block
    [act State.newGpsListener, sysCall env .addGpsStatusListener, act State.addGpsListener,
      sysCall env .isLocationServiceEnabled, scheduleAtFixedRate .checkLocationService]

def startBatteryLevelMonitor (env : SysEnv) : Method :=
  block [createReceiver .mBatteryLevelReceiver, registerReceiver env .mBatteryLevelReceiver]

def startRadioTraceMonitor (env : SysEnv) : Method :=
  block [act State.newPhoneListener, sysCall env .listen, act State.addPhoneListener]

def startBluetoothTraceMonitor (env : SysEnv) : Method :=
  block [sysCall env .getDefaultAdapter, registerReceiver env .mBluetoothTraceReceiver]

def startWifiTraceMonitor (env : SysEnv) : Method := registerReceiver env .mWifiTraceReceiver

/-- `startActiveProcessTrace` writes the running processes once. -/
def startActiveProcessTrace (env : SysEnv) : Method := sysCall env .getRunningAppProcesses

def startCameraTrace : Method := scheduleAtFixedRate .checkCameraLaunch

def startDataBearerChangeNotification (env : SysEnv) : Method :=
  block [registerReceiver env .mBearerChangeReceiver, sysCall env .recordInitialBearerInfo]

def startDeviceSDCardSpaceMidTrace : Method := scheduleAtFixedRate .checkSDCardSpace

def startAirplaneModeMidTrace : Method := scheduleAtFixedRate .checkAirplaneModeEnabled

def startScreenRotationMonitor (env : SysEnv) : Method :=
  block [createReceiver .mScreenRotationReceiver, registerReceiver env .mScreenRotationReceiver]

/-- The collectors started before the last one. -/
def startMonitors (env : SysEnv) : List Method :=
  [startTouchScreenCollector env, startScreenTraceMonitor env, startGpsTraceMonitor env,
    startBatteryLevelMonitor env, startRadioTraceMonitor env, startBluetoothTraceMonitor env,
    startWifiTraceMonitor env, startActiveProcessTrace env, startCameraTrace,
    startDataBearerChangeNotification env, startDeviceSDCardSpaceMidTrace,
    startAirplaneModeMidTrace]

/-- `startDataTraceCollection`: an exception skips the collectors that follow. -/
def startDataTraceCollection (env : SysEnv) : Method :=
  tryCatch (fun _ => true) <| block (startMonitors env ++ [startScreenRotationMonitor env])

/-! ## stopDataTraceCollection -/

def catchIllegalArgument (m : Method) : Method := tryCatch (· = .illegalArgument) m

/-- `removeView(mView)`, which throws when the view is not attached. -/
def removeView : Method := fun s =>
  match s.mView with
  | none => (some .illegalArgument, s)
  | some v =>
    if v ∈ s.attachedViews then
      (none, { s with attachedViews := s.attachedViews.filter (· ≠ v) })
    else (some .illegalArgument, s)

def stopTouchScreenCollector : Method :=
  when (fun s => s.mWindowManager && s.mView.isSome) <| tryCatch (fun _ => true) removeView

def stopScreenTraceMonitor : Method :=
  catchIllegalArgument <| block
    [when (fun s => (s.receivers .mScreenTraceReceiver).isSome) <| block
      [unregisterReceiver .mScreenTraceReceiver, cancel .checkScreenBrightness],
    nullTimer .checkScreenBrightness]

/-- `removeGpsStatusListener(mGPSStatesListner)`. -/
def State.removeGpsListener (s : State) : State :=
  { s with
    gpsListeners := s.gpsListeners.filter fun l => some l ≠ s.mGPSStatesListner
    mGPSStatesManager := false }

def stopGpsTraceMonitor : Method :=
  block
    [when (fun s => s.mGPSStatesManager && s.mGPSStatesListner.isSome) <|
      act State.removeGpsListener,
    cancel .checkLocationService]

/-- `stopBatteryLevelMonitor`, and the stops of the bearer and the rotation
receiver: unregistered and forgotten. -/
def stopAndForget (r : ReceiverField) : Method :=
  catchIllegalArgument <| when (fun s => (s.receivers r).isSome) <|
    block [unregisterReceiver r, nullReceiver r]

def stopBatteryLevelMonitor : Method := stopAndForget .mBatteryLevelReceiver

/-- `listen(mPhoneStateListener, LISTEN_NONE)`. -/
def listenNone : Method := fun s =>
  if s.mTelphoneManager then
    (none, { s with
      phoneListeners := s.phoneListeners.filter fun l => some l ≠ s.mPhoneStateListener
      mTelphoneManager := false
      mPhoneStateListener := none })
  else (some .nullPointer, s)

def stopRadioTraceMonitor : Method :=
  when (fun s => s.mPhoneStateListener.isSome) listenNone

/-- `stopBluetoothTraceMonitor` and `stopWifiTraceMonitor`: the receiver is kept. -/
def stopReceiver (r : ReceiverField) : Method :=
  catchIllegalArgument <| when (fun s => (s.receivers r).isSome) <| unregisterReceiver r

def stopBluetoothTraceMonitor : Method := stopReceiver .mBluetoothTraceReceiver

def stopWifiTraceMonitor : Method := stopReceiver .mWifiTraceReceiver

/-- `stopCameraTrace`, and the stops of the other two timers. -/
def stopTimer (f : TimerField) : Method :=
  when (fun s => (s.timers f).isSome) <| block [cancel f, nullTimer f]

def stopCameraTrace : Method := stopTimer .checkCameraLaunch

def stopDataBearerChangeNotification : Method := stopAndForget .mBearerChangeReceiver

def stopDeviceSDCardSpaceMidTrace : Method := stopTimer .checkSDCardSpace

def stopAirplaneModeMidTrace : Method := stopTimer .checkAirplaneModeEnabled

def stopScreenRotationMonitor : Method := stopAndForget .mScreenRotationReceiver

def stopMonitors : List Method :=
  [stopTouchScreenCollector, stopScreenTraceMonitor, stopGpsTraceMonitor,
    stopBatteryLevelMonitor, stopRadioTraceMonitor, stopBluetoothTraceMonitor,
    stopWifiTraceMonitor, stopCameraTrace, stopDataBearerChangeNotification,
    stopDeviceSDCardSpaceMidTrace, stopAirplaneModeMidTrace, stopScreenRotationMonitor]

/-- `stopDataTraceCollection`. -/
def stopDataTraceCollection : Method := tryCatch (fun _ => true) (block stopMonitors)

/-! ## Requests -/

/-- What the service is asked: `onStartCommand`, or `requestStop`. The activity
keeps the service bound, so a stop does not destroy it. -/
inductive Request where
  | start (env : SysEnv)
  | stop

def serve : Request → State → State
  | .start env, s => (startDataTraceCollection env s).2
  | .stop, s => (stopDataTraceCollection s).2

/-- The parts of the collectors that can be active. -/
inductive Part where
  | view
  | timer (f : TimerField)
  | gpsListener
  | phoneListener
  | receiver (r : ReceiverField)
deriving DecidableEq, Repr

/-- A view is attached, a timer has a scheduled task, a listener or receiver is
registered. -/
def Part.active : Part → State → Bool
  | .view, s => !s.attachedViews.isEmpty
  | .timer f, s => (s.timers f).any fun t => 0 < t.tasks
  | .gpsListener, s => !s.gpsListeners.isEmpty
  | .phoneListener, s => !s.phoneListeners.isEmpty
  | .receiver r, s => s.registered.any fun x => x.1 = r

end MobiPerf.Collector
