import MobiPerf.Collector.Service

/-!
# Collector.Lifecycle — what a sequence of starts and stops leaves active

After a start all collectors are to be active, after a stop none. The timers and
the receiver of the bearer are made once, with the service, and a stop discards
them, so nothing is complete that is started after a stop; and a second start
replaces the view and the two listeners of the first, which no stop removes then.
-/

namespace MobiPerf.Collector

open Lib Stmt

def AllActive (s : State) : Prop := ∀ p : Part, p.active s = true

def NoneActive (s : State) : Prop := ∀ p : Part, p.active s = false

/-- What a request is to leave. -/
def Request.Leaves : Request → State → Prop
  | .start _ => AllActive
  | .stop => NoneActive

/-- Every request of the sequence leaves what it is to leave. -/
def LifecycleKept : List Request → State → Prop
  | [], _ => True
  | r :: rs, s => r.Leaves (serve r s) ∧ LifecycleKept rs (serve r s)

def Request.isStart : Request → Bool
  | .start _ => true
  | .stop => false

def Request.isStop : Request → Bool
  | .start _ => false
  | .stop => true

/-- No start after a stop, no stop after two starts, and a first start during
which no call into the system throws. -/
def Orderly : List Request → Prop
  | [] => True
  | .stop :: rs => ∀ r ∈ rs, r.isStop
  | .start env :: rs => (∀ c, env c = false) ∧ ((∀ r ∈ rs, r.isStop) ∨ ∀ r ∈ rs, r.isStart)

/-! ## What a start does

A start is made of a few primitives. What each of them keeps, the start keeps. -/

structure StartKeeps (env : SysEnv) (P : State → Prop) : Prop where
  newView : ∀ s, P s → P s.newView
  attachView : env .addView = false → ∀ s, P s → P s.attachView
  schedule : ∀ f, Keeps P (scheduleAtFixedRate f)
  newGpsListener : ∀ s, P s → P s.newGpsListener
  addGpsListener : ∀ s, P s → P s.addGpsListener
  newPhoneListener : ∀ s, P s → P s.newPhoneListener
  addPhoneListener : ∀ s, P s → P s.addPhoneListener
  create : ∀ r, Keeps P (createReceiver r)
  register : ∀ r ≠ .mScreenRotationReceiver, ∀ s, P s → P (s.register r)

section StartKeeps

variable {env : SysEnv} {P : State → Prop}

/-- A call of the system changes no state. -/
theorem keeps_sysCall (c : SysCall) : Keeps P (sysCall env c) := by
  intro s h
  unfold sysCall
  split
  · exact h
  · exact h

/-- Registering a receiver keeps what its registration keeps. -/
theorem keeps_registerReceiver {r : ReceiverField} (h : ∀ s, P s → P (s.register r)) :
    Keeps P (registerReceiver env r) :=
  keeps_pair (keeps_sysCall _) h

theorem keeps_startTouchScreenCollector (hnew : ∀ s, P s → P s.newView)
    (hattach : env .addView = false → ∀ s, P s → P s.attachView) :
    Keeps P (startTouchScreenCollector env) := by
  refine Keeps.tryCatch ?_ _
  cases hadd : env .addView with
  | false =>
      refine keeps_block ?_
      simp only [List.forall_mem_cons]
      exact ⟨hnew, keeps_sysCall _, hattach hadd, List.forall_mem_nil _⟩
  | true =>
      -- the view is made and not attached
      intro s h
      have hthrow : sysCall env .addView s.newView = (some .system, s.newView) := by
        simp [sysCall, hadd]
      show P ((sysCall env .addView).seq _ s.newView).2
      rw [seq_of_some hthrow]
      exact hnew s h

/-- All monitors keep what each of their operations keeps. -/
theorem StartKeeps.monitors (h : StartKeeps env P) : ∀ m ∈ startMonitors env, Keeps P m := by
  have hreg : ∀ r ≠ .mScreenRotationReceiver, Keeps P (registerReceiver env r) :=
    fun r hr => keeps_registerReceiver (h.register r hr)
  have hgps : Keeps P (startGpsTraceMonitor env) := by
    refine keeps_block ?_
    simp only [List.forall_mem_cons]
    exact ⟨h.newGpsListener, keeps_sysCall _, h.addGpsListener, keeps_sysCall _, h.schedule _,
      List.forall_mem_nil _⟩
  have hradio : Keeps P (startRadioTraceMonitor env) := by
    refine keeps_block ?_
    simp only [List.forall_mem_cons]
    exact ⟨h.newPhoneListener, keeps_sysCall _, h.addPhoneListener, List.forall_mem_nil _⟩
  simp only [startMonitors, List.forall_mem_cons]
  refine ⟨keeps_startTouchScreenCollector h.newView h.attachView, ?_, hgps, ?_, hradio, ?_, ?_, ?_,
    ?_, ?_, ?_, ?_, List.forall_mem_nil _⟩
  · exact keeps_pair (h.schedule _) (hreg _ (by decide))
  · exact keeps_pair (h.create _) (hreg _ (by decide))
  · exact keeps_pair (keeps_sysCall _) (hreg _ (by decide))
  · exact hreg _ (by decide)
  · exact keeps_sysCall _
  · exact h.schedule _
  · exact keeps_pair (hreg _ (by decide)) (keeps_sysCall _)
  · exact h.schedule _
  · exact h.schedule _

theorem StartKeeps.start (h : StartKeeps env P)
    (hrotation : ∀ s, P s → P (s.register .mScreenRotationReceiver)) :
    ∀ s, P s → P (serve (.start env) s) := by
  have hlast : Keeps P (startScreenRotationMonitor env) :=
    keeps_pair (h.create _) (keeps_registerReceiver hrotation)
  refine Keeps.tryCatch (keeps_block ?_) _
  intro m hm
  rcases List.mem_append.mp hm with hm | hm
  · exact h.monitors m hm
  · rw [List.mem_singleton] at hm
    exact hm ▸ hlast

end StartKeeps

/-! ## What a stop does -/

structure StopKeeps (P : State → Prop) : Prop where
  removeView : Keeps P removeView
  unregister : ∀ r, Keeps P (unregisterReceiver r)
  cancel : ∀ f, Keeps P (cancel f)
  nullTimer : ∀ f ≠ .checkLocationService, Keeps P (nullTimer f)
  removeGpsListener : ∀ s, P s → P s.removeGpsListener
  nullReceiver : ∀ r, Keeps P (nullReceiver r)
  listenNone : Keeps P listenNone

/-- A stop keeps what each of its operations keeps. -/
theorem StopKeeps.stop {P : State → Prop} (h : StopKeeps P) : ∀ s, P s → P (serve .stop s) := by
  have hwhen : ∀ {test : State → Bool} {m : Method}, Keeps P m → Keeps P (m.when test) :=
    fun hm => Keeps.when fun s _ hs => hm s hs
  have hforget : ∀ r, Keeps P (stopAndForget r) := fun r =>
    (hwhen (keeps_pair (h.unregister r) (h.nullReceiver r))).tryCatch _
  have hreceiver : ∀ r, Keeps P (stopReceiver r) := fun r =>
    (hwhen (h.unregister r)).tryCatch _
  have htimer : ∀ f ≠ .checkLocationService, Keeps P (stopTimer f) := fun f hf =>
    hwhen (keeps_pair (h.cancel f) (h.nullTimer f hf))
  have hscreen : Keeps P stopScreenTraceMonitor :=
    (keeps_pair (hwhen (keeps_pair (h.unregister _) (h.cancel _)))
      (h.nullTimer _ (by decide))).tryCatch _
  have hgps : Keeps P stopGpsTraceMonitor := keeps_pair (hwhen h.removeGpsListener) (h.cancel _)
  refine Keeps.tryCatch (keeps_block ?_) _
  simp only [stopMonitors, List.forall_mem_cons]
  exact ⟨hwhen (h.removeView.tryCatch _), hscreen, hgps, hforget _, hwhen h.listenNone,
    hreceiver _, hreceiver _, htimer _ (by decide), hforget _, htimer _ (by decide),
    htimer _ (by decide), hforget _, List.forall_mem_nil _⟩

/-! ## What starts and stops keep -/

/-- A timer that is running gets one task more. -/
theorem timers_scheduleAtFixedRate (f : TimerField) (s : State) :
    (scheduleAtFixedRate f s).2.timers = s.timers ∨
      ∃ t, s.timers f = some t ∧ t.cancelled = false ∧ (scheduleAtFixedRate f s).2.timers =
        Function.update s.timers f (some { t with tasks := t.tasks + 1 }) := by
  unfold scheduleAtFixedRate
  split
  · exact Or.inl rfl
  · rename_i t ht
    split
    · exact Or.inl rfl
    · rename_i hcancelled
      exact Or.inr ⟨t, ht, eq_false_of_ne_true hcancelled, rfl⟩

/-- Scheduling changes the timers only. -/
theorem scheduleAtFixedRate_frame (f : TimerField) (s : State) :
    (scheduleAtFixedRate f s).2 = { s with timers := (scheduleAtFixedRate f s).2.timers } := by
  unfold scheduleAtFixedRate
  split
  · rfl
  · split
    · rfl
    · rfl

/-- A registration adds one receiver, if there is one to add. -/
theorem registered_register (r : ReceiverField) (s : State) :
    (s.register r).registered = s.registered ∨
      ∃ id, (s.register r).registered = (r, id) :: s.registered := by
  unfold State.register
  split
  · exact Or.inl rfl
  · exact Or.inr ⟨_, rfl⟩

theorem register_frame (r : ReceiverField) (s : State) :
    s.register r = { s with registered := (s.register r).registered } := by
  unfold State.register
  split
  · rfl
  · rfl

/-- A stop of a view, a receiver, a timer and the radio listener changes the field
it is about only. -/
theorem removeView_frame (s : State) :
    (removeView s).2 = { s with attachedViews := (removeView s).2.attachedViews } := by
  unfold removeView
  split
  · rfl
  · split
    · rfl
    · rfl

theorem unregisterReceiver_frame (r : ReceiverField) (s : State) :
    (unregisterReceiver r s).2 =
      { s with registered := (unregisterReceiver r s).2.registered } := by
  unfold unregisterReceiver
  split
  · rfl
  · split
    · rfl
    · rfl

/-- A cancellation changes the timers only. -/
theorem cancel_frame (f : TimerField) (s : State) :
    (cancel f s).2 = { s with timers := (cancel f s).2.timers } := by
  unfold cancel
  split
  · rfl
  · rfl

/-- To listen no more changes the listeners only. -/
theorem listenNone_frame (s : State) :
    (listenNone s).2 = { s with
      phoneListeners := (listenNone s).2.phoneListeners
      mTelphoneManager := (listenNone s).2.mTelphoneManager
      mPhoneStateListener := (listenNone s).2.mPhoneStateListener } := by
  unfold listenNone
  split
  · rfl
  · rfl

/-- A start turns nothing off. -/
theorem start_keeps_active (env : SysEnv) (p : Part) {s : State} (h : p.active s = true) :
    p.active (serve (.start env) s) = true := by
  -- a registration adds a receiver or fails
  have hregister : ∀ r s, p.active s = true → p.active (s.register r) = true := by
    intro r s hs
    rw [register_frame]
    rcases registered_register r s with heq | ⟨id, heq⟩
    · rw [heq]
      exact hs
    · rw [heq]
      cases p with
      | receiver r' =>
          simp only [Part.active, List.any_cons] at hs ⊢
          rw [hs, Bool.or_true]
      | _ => exact hs
  -- every step of `start` only adds
  have hkeeps : StartKeeps env (p.active · = true) :=
    { newView := fun s hs => by cases p <;> exact hs
      attachView := fun _ s hs => by
        cases p with
        | view =>
            simp only [Part.active, Bool.not_eq_true', List.isEmpty_eq_false_iff] at hs ⊢
            exact List.append_ne_nil_of_right_ne_nil _ hs
        | _ => exact hs
      schedule := fun f s hs => by
        rw [scheduleAtFixedRate_frame]
        cases p with
        | timer g =>
            simp only [Part.active] at hs ⊢
            rcases timers_scheduleAtFixedRate f s with heq | ⟨t, ht, _, heq⟩
            · rw [heq]
              exact hs
            · rw [heq]
              by_cases hg : g = f
              · subst hg
                simp
              · rw [Function.update_of_ne hg]
                exact hs
        | _ => exact hs
      newGpsListener := fun s hs => by cases p <;> exact hs
      addGpsListener := fun s hs => by
        cases p with
        | gpsListener =>
            simp only [Part.active, Bool.not_eq_true', List.isEmpty_eq_false_iff] at hs ⊢
            exact List.append_ne_nil_of_right_ne_nil _ hs
        | _ => exact hs
      newPhoneListener := fun s hs => by cases p <;> exact hs
      addPhoneListener := fun s hs => by
        cases p with
        | phoneListener =>
            simp only [Part.active, Bool.not_eq_true', List.isEmpty_eq_false_iff] at hs ⊢
            exact List.append_ne_nil_of_right_ne_nil _ hs
        | _ => exact hs
      create := fun r => Keeps.when fun s _ hs => by cases p <;> exact hs
      register := fun r _ s hs => hregister r s hs }
  exact hkeeps.start (hregister _) s h

/-- A field that gets a timer without a task, or none, turns nothing on. -/
theorem Part.inactive_setTimer (p : Part) {s : State} {f : TimerField} {timer : Option Timer}
    (htimer : (timer.any fun t => 0 < t.tasks) = false) (h : p.active s = false) :
    p.active { s with timers := Function.update s.timers f timer } = false := by
  cases p with
  | timer g =>
      simp only [Part.active] at h ⊢
      by_cases hg : g = f
      · subst hg
        rw [Function.update_self]
        exact htimer
      · rw [Function.update_of_ne hg]
        exact h
  | _ => exact h

/-- A stop turns nothing on. -/
theorem stop_keeps_inactive (p : Part) {s : State} (h : p.active s = false) :
    p.active (serve .stop s) = false := by
  -- every step of `stop` only takes away
  have hkeeps : StopKeeps (p.active · = false) :=
    { removeView := fun s hs => by
        unfold removeView
        split
        · exact hs
        · split
          · cases p with
            | view =>
                simp only [Part.active, Bool.not_eq_false', List.isEmpty_iff] at hs ⊢
                simp [hs]
            | _ => exact hs
          · exact hs
      unregister := fun r s hs => by
        unfold unregisterReceiver
        split
        · exact hs
        · split
          · cases p with
            | receiver r' =>
                simp only [Part.active, List.any_eq_false] at hs ⊢
                exact fun x hx => hs x (List.mem_of_mem_filter hx)
            | _ => exact hs
          · exact hs
      cancel := fun f s hs => by
        unfold cancel
        split
        · exact hs
        · exact p.inactive_setTimer rfl hs
      nullTimer := fun f _ s hs => p.inactive_setTimer rfl hs
      removeGpsListener := fun s hs => by
        cases p with
        | gpsListener =>
            simp only [Part.active, Bool.not_eq_false', List.isEmpty_iff] at hs ⊢
            simp [State.removeGpsListener, hs]
        | _ => exact hs
      nullReceiver := fun r s hs => by cases p <;> exact hs
      listenNone := fun s hs => by
        unfold listenNone
        split
        · cases p with
          | phoneListener =>
              simp only [Part.active, Bool.not_eq_false', List.isEmpty_iff] at hs ⊢
              simp [hs]
          | _ => exact hs
        · exact hs }
  exact hkeeps.stop s h

/-! ## After a stop -/

/-- Nothing is active and the location timer is used up. -/
structure Dead (s : State) : Prop where
  none : NoneActive s
  cancelled : s.timers .checkLocationService = some ⟨0, true⟩

/-- A service that is dead stays so at a stop. -/
theorem Dead.stop {s : State} (h : Dead s) : Dead (serve .stop s) where
  none := fun p => stop_keeps_inactive p (h.none p)
  cancelled := by
    -- `stop` cancels the timer again and does not put `null` in this field
    have hkeeps : StopKeeps fun s => s.timers .checkLocationService = some ⟨0, true⟩ :=
      { removeView := fun s hs => by
          rw [removeView_frame]
          exact hs
        unregister := fun r s hs => by
          rw [unregisterReceiver_frame]
          exact hs
        cancel := fun f s hs => by
          unfold cancel
          split
          · exact hs
          · by_cases hf : f = .checkLocationService
            · subst hf
              simp
            · simp only
              rw [Function.update_of_ne (Ne.symm hf)]
              exact hs
        nullTimer := fun f hf s hs => by
          simp only [nullTimer, act]
          rw [Function.update_of_ne (Ne.symm hf)]
          exact hs
        removeGpsListener := fun s hs => hs
        nullReceiver := fun r s hs => hs
        listenNone := fun s hs => by
          rw [listenNone_frame]
          exact hs }
    exact hkeeps.stop s h.cancelled

/-- No start makes a used up timer active again. -/
theorem Dead.not_allActive {s : State} (h : Dead s) (env : SysEnv) :
    ¬ AllActive (serve (.start env) s) := by
  have hregister : ∀ r (s : State), s.timers .checkLocationService = some ⟨0, true⟩ →
      (s.register r).timers .checkLocationService = some ⟨0, true⟩ := by
    intro r s hs
    rw [register_frame]
    exact hs
  -- the cancelled timer of the location check is never replaced, as the field is not `null`
  have hkeeps : StartKeeps env fun s => s.timers .checkLocationService = some ⟨0, true⟩ :=
    { newView := fun s hs => hs
      attachView := fun _ s hs => hs
      schedule := fun f s hs => by
        -- a field that holds a timer is not given another
        rcases timers_scheduleAtFixedRate f s with heq | ⟨t, ht, hcancelled, heq⟩
        · rw [heq]
          exact hs
        · rw [heq]
          by_cases hf : f = .checkLocationService
          · subst hf
            have hs : s.timers .checkLocationService = some ⟨0, true⟩ := hs
            rw [ht] at hs
            cases hs
            cases hcancelled
          · rw [Function.update_of_ne (Ne.symm hf)]
            exact hs
      newGpsListener := fun s hs => hs
      addGpsListener := fun s hs => hs
      newPhoneListener := fun s hs => hs
      addPhoneListener := fun s hs => hs
      create := fun r => Keeps.when fun s _ hs => hs
      register := fun r _ s hs => hregister r s hs }
  intro hall
  have htimer := hall (.timer .checkLocationService)
  have hcancelled := hkeeps.start (hregister _) s h.cancelled
  simp only [Part.active, hcancelled] at htimer
  simp at htimer

/-- The lifecycle of a dead service is kept by stops only. -/
theorem Dead.lifecycleKept_iff {s : State} (h : Dead s) (rs : List Request) :
    LifecycleKept rs s ↔ ∀ r ∈ rs, r.isStop = true := by
  induction rs generalizing s with
  | nil => simp [LifecycleKept]
  | cons r rs ih =>
      rw [List.forall_mem_cons, LifecycleKept]
      cases r with
      | start env =>
          constructor
          · rintro ⟨hall, _⟩
            exact absurd hall (h.not_allActive env)
          · rintro ⟨hstop, _⟩
            cases hstop
      | stop =>
          have hnone : Request.stop.Leaves (serve .stop s) := h.stop.none
          rw [ih h.stop, and_iff_right hnone]
          simp [Request.isStop]

/-! ## After two starts -/

/-- Some view is attached that `mView` does not name: no stop will remove it. -/
def Leaked (s : State) : Prop := ∃ v ∈ s.attachedViews, v < s.objects ∧ s.mView ≠ some v

/-- A start on top of an attached view makes a new `mView`. -/
theorem start_leaked (env : SysEnv) {s : State} (h : ∃ v ∈ s.attachedViews, v < s.objects) :
    Leaked (serve (.start env) s) := by
  have hregister : ∀ r (s : State), Leaked s → Leaked (s.register r) := by
    intro r s hs
    rw [register_frame]
    exact hs
  have hkeeps : StartKeeps env Leaked :=
    { newView := by
        rintro s ⟨v, hv, hlt, _⟩
        refine ⟨v, hv, Nat.lt_succ_of_lt hlt, fun heq => ?_⟩
        have heq : s.objects = v := Option.some.inj heq
        omega
      attachView := fun _ s ⟨v, hv, hlt, hne⟩ => ⟨v, List.mem_append_right _ hv, hlt, hne⟩
      schedule := fun f s hs => by
        rw [scheduleAtFixedRate_frame]
        exact hs
      newGpsListener := fun s ⟨v, hv, hlt, hne⟩ => ⟨v, hv, Nat.lt_succ_of_lt hlt, hne⟩
      addGpsListener := fun s hs => hs
      newPhoneListener := fun s ⟨v, hv, hlt, hne⟩ => ⟨v, hv, Nat.lt_succ_of_lt hlt, hne⟩
      addPhoneListener := fun s hs => hs
      create := fun r => Keeps.when fun s _ ⟨v, hv, hlt, hne⟩ =>
        ⟨v, hv, Nat.lt_succ_of_lt hlt, hne⟩
      register := fun r _ s hs => hregister r s hs }
  -- the first statement of the start replaces `mView`, the others keep what follows
  have hfirst : Leaked (startTouchScreenCollector env s).2 := by
    rcases h with ⟨v, hv, hlt⟩
    have hnew : Leaked s.newView := by
      refine ⟨v, hv, Nat.lt_succ_of_lt hlt, fun heq => ?_⟩
      have heq : s.objects = v := Option.some.inj heq
      omega
    unfold startTouchScreenCollector
    rw [tryCatch_snd]
    refine block_cons_establishes hnew ?_
    simp only [List.forall_mem_cons]
    refine ⟨keeps_sysCall _, ?_, List.forall_mem_nil _⟩
    exact fun s ⟨v, hv, hlt, hne⟩ => ⟨v, List.mem_append_right _ hv, hlt, hne⟩
  have hlast : Keeps Leaked (startScreenRotationMonitor env) :=
    keeps_pair (hkeeps.create _) (keeps_registerReceiver (hregister _))
  show Leaked (tryCatch _ (block _) s).2
  rw [tryCatch_snd]
  refine block_cons_establishes hfirst fun m hm => ?_
  rcases List.mem_append.mp hm with hm | hm
  · exact hkeeps.monitors m (List.mem_cons_of_mem _ hm)
  · rw [List.mem_singleton] at hm
    exact hm ▸ hlast

/-- Such a view is attached. -/
theorem Leaked.attached {s : State} (h : Leaked s) : ∃ v ∈ s.attachedViews, v < s.objects := by
  rcases h with ⟨v, hv, hlt, _⟩
  exact ⟨v, hv, hlt⟩

/-- A stop leaves such a view attached. -/
theorem Leaked.not_noneActive {s : State} (h : Leaked s) : ¬ NoneActive (serve .stop s) := by
  -- a view that `mView` no longer names is not removed by any step of `stop`
  have hkeeps : StopKeeps fun s => ∃ v ∈ s.attachedViews, s.mView ≠ some v :=
    { removeView := by
        rintro s ⟨v, hv, hne⟩
        unfold removeView
        split
        · exact ⟨v, hv, hne⟩
        · rename_i w hw
          split
          · refine ⟨v, List.mem_filter.mpr ⟨hv, ?_⟩, hne⟩
            rw [hw] at hne
            have hvw : v ≠ w := fun heq => hne (heq ▸ rfl)
            exact decide_eq_true hvw
          · exact ⟨v, hv, hne⟩
      unregister := fun r s hs => by
        rw [unregisterReceiver_frame]
        exact hs
      cancel := fun f s hs => by
        rw [cancel_frame]
        exact hs
      nullTimer := fun f _ s hs => hs
      removeGpsListener := fun s hs => hs
      nullReceiver := fun r s hs => hs
      listenNone := fun s hs => by
        rw [listenNone_frame]
        exact hs }
  intro hnone
  rcases h with ⟨v, hv, _, hne⟩
  rcases hkeeps.stop s ⟨v, hv, hne⟩ with ⟨w, hw, _⟩
  have hview := hnone .view
  simp only [Part.active, Bool.not_eq_false', List.isEmpty_iff] at hview
  rw [hview] at hw
  exact absurd hw List.not_mem_nil

/-- The lifecycle of a service that has leaked is kept by starts only. -/
theorem Leaked.lifecycleKept_iff {s : State} (h : Leaked s) (hall : AllActive s)
    (rs : List Request) : LifecycleKept rs s ↔ ∀ r ∈ rs, r.isStart = true := by
  induction rs generalizing s with
  | nil => simp [LifecycleKept]
  | cons r rs ih =>
      rw [List.forall_mem_cons, LifecycleKept]
      cases r with
      | start env =>
          have hstart : AllActive (serve (.start env) s) :=
            fun p => start_keeps_active env p (hall p)
          have hleaves : (Request.start env).Leaves (serve (.start env) s) := hstart
          rw [ih (start_leaked env h.attached) hstart, and_iff_right hleaves]
          simp [Request.isStart]
      | stop =>
          constructor
          · rintro ⟨hnone, _⟩
            exact absurd hnone h.not_noneActive
          · rintro ⟨hstart, _⟩
            cases hstart

/-! ## The first start -/

/-- A call that ends normally did not throw. -/
theorem sysCall_eq_none {env : SysEnv} {c : SysCall} {s : State}
    (h : (sysCall env c s).1 = none) : env c = false := by
  unfold sysCall at h
  split at h
  · cases h
  · rename_i hc
    exact eq_false_of_ne_true hc

/-- The calls of a block that ended normally did not throw. -/
theorem env_eq_false_of_mem {env : SysEnv} {c : SysCall} {ms : List Method} {s : State}
    (h : (block ms s).1 = none) (hmem : sysCall env c ∈ ms) : env c = false := by
  rcases block_eq_none h _ hmem with ⟨s', hs'⟩
  exact sysCall_eq_none hs'

/-- Nor did a registration that ends normally. -/
theorem registerReceiver_eq_none {env : SysEnv} {r : ReceiverField} {s : State}
    (h : (registerReceiver env r s).1 = none) : env (.registerReceiver r) = false :=
  env_eq_false_of_mem h List.mem_cons_self

/-- A registration that throws changes nothing. -/
theorem registerReceiver_of_throws {env : SysEnv} {r : ReceiverField}
    (h : env (.registerReceiver r) = true) (s : State) :
    registerReceiver env r s = (some .system, s) := by
  have hthrow : sysCall env (.registerReceiver r) s = (some .system, s) := by
    simp [sysCall, h]
  exact seq_of_some hthrow

/-- The rotation receiver is the last one registered: if it is, everything before
it ran to its end, and its own registration did not throw. -/
theorem completes_of_rotation {env : SysEnv} {s : State}
    (hs : (Part.receiver .mScreenRotationReceiver).active s = false)
    (h : (Part.receiver .mScreenRotationReceiver).active (serve (.start env) s) = true) :
    (∀ m ∈ startMonitors env, ∃ s', (m s').1 = none) ∧
      env (.registerReceiver .mScreenRotationReceiver) = false := by
  have hkeeps : StartKeeps env
      fun s => ¬ (Part.receiver .mScreenRotationReceiver).active s = true :=
    { newView := fun s hs => hs
      attachView := fun _ s hs => hs
      schedule := fun f s hs => by
        rw [scheduleAtFixedRate_frame]
        exact hs
      newGpsListener := fun s hs => hs
      addGpsListener := fun s hs => hs
      newPhoneListener := fun s hs => hs
      addPhoneListener := fun s hs => hs
      create := fun r => Keeps.when fun s _ hs => hs
      register := fun r hr s hs => by
        rw [register_frame]
        rcases registered_register r s with heq | ⟨id, heq⟩
        · rw [heq]
          exact hs
        · rw [heq]
          simpa [Part.active, hr] using hs }
  have hend : (Part.receiver .mScreenRotationReceiver).active
      (block (startMonitors env ++ [startScreenRotationMonitor env]) s).2 = true := by
    rw [← h]
    show _ = Part.active _ (tryCatch _ (block _) s).2
    rw [tryCatch_snd]
  rcases block_concat_establishes hkeeps.monitors (by simp [hs]) hend with ⟨hall, s', hs', hlast⟩
  refine ⟨hall, eq_false_of_ne_true fun hthrow => ?_⟩
  -- had the registration thrown, the last collector would have registered nothing
  have hkeep : Keeps (fun s => ¬ (Part.receiver .mScreenRotationReceiver).active s = true)
      (startScreenRotationMonitor env) := by
    refine keeps_pair (hkeeps.create _) fun s hs => ?_
    rw [registerReceiver_of_throws hthrow]
    exact hs
  exact hkeep s' hs' hlast

/-- When `addView` throws, no view is attached. -/
theorem view_inactive_of_throws {env : SysEnv} (hthrow : env .addView = true) {s : State}
    (hs : s.attachedViews = []) : (serve (.start env) s).attachedViews = [] := by
  have hregister : ∀ r (s : State), s.attachedViews = [] → (s.register r).attachedViews = [] := by
    intro r s hs
    rw [register_frame]
    exact hs
  have hkeeps : StartKeeps env fun s => s.attachedViews = [] :=
    { newView := fun s hs => hs
      attachView := fun hadd => by
        rw [hthrow] at hadd
        cases hadd
      schedule := fun f s hs => by
        rw [scheduleAtFixedRate_frame]
        exact hs
      newGpsListener := fun s hs => hs
      addGpsListener := fun s hs => hs
      newPhoneListener := fun s hs => hs
      addPhoneListener := fun s hs => hs
      create := fun r => Keeps.when fun s _ hs => hs
      register := fun r _ s hs => hregister r s hs }
  exact hkeeps.start (hregister _) s hs

/-- On a new service a start activates everything exactly when nothing throws. -/
theorem start_allActive_iff (env : SysEnv) :
    AllActive (serve (.start env) State.created) ↔ ∀ c, env c = false := by
  constructor
  · -- from the last part backwards: for the rotation receiver to be active nothing threw before it
    intro hall
    rcases completes_of_rotation rfl (hall _) with ⟨hmonitors, hrotation⟩
    simp only [startMonitors, List.forall_mem_cons] at hmonitors
    rcases hmonitors with ⟨_, ⟨_, hscreen⟩, ⟨_, hgps⟩, ⟨_, hbattery⟩, ⟨_, hradio⟩, ⟨_, hblue⟩,
      ⟨_, hwifi⟩, ⟨_, hprocess⟩, _, ⟨_, hbearer⟩, _⟩
    -- each call that can throw stands in a monitor that completed
    have hreg : ∀ {ms : List Method} {s : State} {r : ReceiverField},
        (block ms s).1 = none → registerReceiver env r ∈ ms →
          env (.registerReceiver r) = false := by
      intro ms s r hms hmem
      rcases block_eq_none hms _ hmem with ⟨s', hs'⟩
      exact registerReceiver_eq_none hs'
    intro c
    cases c with
    -- `addView` throws without ending `start`; it is its own part that is missing
    | addView =>
        by_contra hthrow
        have hview := hall .view
        have hnone := view_inactive_of_throws (eq_true_of_ne_false hthrow)
          (s := State.created) rfl
        simp only [Part.active, hnone] at hview
        cases hview
    | registerReceiver r =>
        cases r with
        | mScreenTraceReceiver => exact hreg hscreen (by simp)
        | mBatteryLevelReceiver => exact hreg hbattery (by simp)
        | mBluetoothTraceReceiver => exact hreg hblue (by simp)
        | mWifiTraceReceiver => exact registerReceiver_eq_none hwifi
        | mBearerChangeReceiver => exact hreg hbearer (by simp)
        | mScreenRotationReceiver => exact hrotation
    | addGpsStatusListener => exact env_eq_false_of_mem hgps (by simp)
    | isLocationServiceEnabled => exact env_eq_false_of_mem hgps (by simp)
    | listen => exact env_eq_false_of_mem hradio (by simp)
    | getDefaultAdapter => exact env_eq_false_of_mem hblue (by simp)
    | getRunningAppProcesses => exact sysCall_eq_none hprocess
    | recordInitialBearerInfo => exact env_eq_false_of_mem hbearer (by simp)
  · -- with no call throwing there is one run, which is evaluated
    intro henv
    have heq : env = fun _ => false := funext henv
    rw [heq]
    intro p
    cases p with
    | timer f => cases f <;> decide +kernel
    | receiver r => cases r <;> decide +kernel
    | _ => decide +kernel

/-! ## Sequences -/

/-- The service after a start during which nothing threw. -/
def State.collecting : State := serve (.start fun _ => false) State.created

/-- A service that is stopped before its start is dead. -/
theorem created_stop_dead : Dead (serve .stop State.created) where
  none := fun p => stop_keeps_inactive p (by cases p <;> rfl)
  cancelled := by decide +kernel

/-- The first start leaves everything collecting. -/
theorem start_created : serve (.start fun _ => false) State.created = State.collecting := by
  rw [State.collecting]

/-- A stop behind it leaves the service dead. -/
theorem collecting_stop_dead : Dead (serve .stop State.collecting) where
  none := by
    intro p
    cases p with
    | timer f => cases f <;> decide +kernel
    | receiver r => cases r <;> decide +kernel
    | _ => decide +kernel
  cancelled := by decide +kernel

/-- Behind the first start the lifecycle is kept by stops only, or by starts only. -/
theorem collecting_lifecycleKept_iff (rs : List Request) :
    LifecycleKept rs State.collecting ↔
      (∀ r ∈ rs, r.isStop = true) ∨ ∀ r ∈ rs, r.isStart = true := by
  have hall : AllActive State.collecting := by
    rw [← start_created]
    exact (start_allActive_iff _).mpr fun _ => rfl
  cases rs with
  | nil => simp [LifecycleKept]
  | cons r rs =>
      rw [List.forall_mem_cons, List.forall_mem_cons, LifecycleKept]
      cases r with
      | start env =>
          have hview : ∃ v ∈ State.collecting.attachedViews, v < State.collecting.objects :=
            ⟨4, by decide +kernel, by decide +kernel⟩
          have hstart : AllActive (serve (.start env) State.collecting) :=
            fun p => start_keeps_active env p (hall p)
          have hleaves : (Request.start env).Leaves (serve (.start env) State.collecting) := hstart
          rw [(start_leaked env hview).lifecycleKept_iff hstart, and_iff_right hleaves]
          simp [Request.isStart, Request.isStop]
      | stop =>
          have hleaves : Request.stop.Leaves (serve .stop State.collecting) :=
            collecting_stop_dead.none
          rw [collecting_stop_dead.lifecycleKept_iff, and_iff_right hleaves]
          simp [Request.isStart, Request.isStop]

/-- A sequence of requests served by a new service leaves all collectors active
after each start and none after each stop exactly when it is orderly. -/
theorem lifecycleKept_iff_orderly (rs : List Request) :
    LifecycleKept rs State.created ↔ Orderly rs := by
  cases rs with
  | nil => exact Iff.rfl
  | cons r rs =>
      cases r with
      | start env =>
          have hleaves : (Request.start env).Leaves (serve (.start env) State.created) ↔
              ∀ c, env c = false := start_allActive_iff env
          rw [LifecycleKept, Orderly, hleaves]
          refine and_congr_right fun henv => ?_
          have heq : env = fun _ => false := funext henv
          rw [heq, start_created]
          exact collecting_lifecycleKept_iff rs
      | stop =>
          have hleaves : Request.stop.Leaves (serve .stop State.created) := created_stop_dead.none
          rw [LifecycleKept, Orderly, created_stop_dead.lifecycleKept_iff, and_iff_right hleaves]

/-- Started, stopped and started again, nothing throwing: the second start finds
the screen timer discarded, and the collectors after it are not started. -/
theorem not_lifecycleKept_restart : ¬ ∀ rs, LifecycleKept rs State.created := by
  intro hall
  have hkept := hall [.start fun _ => false, .stop, .start fun _ => false]
  have hscreen := hkept.2.2.1 (.timer .checkScreenBrightness)
  exact absurd hscreen (by decide +kernel)

end MobiPerf.Collector
