import MobiPerf.Capture.ExitFlag

/-!
# Capture.InputThread — a stop request on its way out of a recursion

An activation of `HandleEvents` that reads the stop value overwrites it with 3
and answers 0: from then on the request is in the return value only. The loop of
`CaptureUserInput` looks at that value, and the call `HandleEvents` makes to
itself after a failed `select` does not.

* `inputThread_stops_runs`: in a run in which only the outermost activation
  reads the stop value, the loop is over once an activation has answered it;
  after a recursive one has read it, the thread can go on to the next `select`.
-/

namespace MobiPerf.Capture

variable {opt : Options}

/-! ## The tests of the stop value -/

/-- The depth of the activation that tests the flag for 4 in its next step. -/
def stopTest : UserPc → Io → Option ℕ
  | .handle d, .ok => some d
  | .scan d, .entry _ => some d
  | .matching d, .key _ => some d
  | _, _ => none

/-- A recursive activation reads the stop value. -/
def InnerReadsStop (a : Act) (s : State) : Prop :=
  match a with
  | .user io => s.exitFlag = 4 ∧ (stopTest s.user io).any fun d => 0 < d
  | _ => False

instance (a : Act) (s : State) : Decidable (InnerReadsStop a s) := by
  unfold InnerReadsStop
  split <;> infer_instance

/-- A step in which no recursive activation does. -/
def OutermostReads (a : Act) (s : State) : Prop := ¬ InnerReadsStop a s

instance (a : Act) (s : State) : Decidable (OutermostReads a s) :=
  inferInstanceAs (Decidable (¬ _))

/-- From `s` to `t` an activation that has read the stop value answers 0. -/
def AnswersStop (opt : Options) (s t : State) : Prop :=
  ∃ d, s.user = .write3 d ∧ step opt (.user .ok) s = some t

/-- The loop of `CaptureUserInput` has been left. -/
def LoopLeft (s : State) : Prop := s.user = .writeLast ∨ s.user = .finished

instance (s : State) : Decidable (LoopLeft s) := inferInstanceAs (Decidable (_ ∨ _))

/-! ## What a step does to the input thread -/

theorem step_user_of_main {io : Io} {s s' : State} (h : step opt (.main io) s = some s') :
    s'.user = s.user := by
  unfold step at h
  split at h
  · cases h
  · simp only [mainStep] at h
    split at h <;> cases h <;> rfl

theorem step_user_of_server {io : Io} {s s' : State} (h : step opt (.server io) s = some s') :
    s'.user = s.user := by
  unfold step at h
  split at h
  · cases h
  · simp only [serverStep] at h
    split at h
    case h_4 =>
      split at h <;> cases h <;> rfl
    all_goals
      cases h
      try rfl

theorem step_user {io : Io} {s s' : State} (h : step opt (.user io) s = some s') :
    s.main ≠ .exited ∧ userStep io s = some s' := by
  unfold step at h
  split at h
  · cases h
  · rename_i hlive
    exact ⟨hlive, h⟩

theorem returned0_ne_write3 (d e : ℕ) : returned0 d ≠ .write3 e := by
  cases d <;> intro h <;> cases h

theorem returned1_ne_write3 (d e : ℕ) : returned1 d ≠ .write3 e := by
  cases d <;> intro h <;> cases h

/-- A test leads to its own answer only, and when it reads the stop value. -/
theorem stop_of_test {s : State} {pc : UserPc} {d e : ℕ}
    (hwrite : (if s.exitFlag = 4 then .write3 e else pc) = .write3 d) (hpc : pc ≠ .write3 d) :
    s.exitFlag = 4 ∧ e = d := by
  split at hwrite
  · rename_i hflag
    cases hwrite
    exact ⟨hflag, rfl⟩
  · exact absurd hwrite hpc

/-- Only a test that reads the stop value leads to the answer. -/
theorem userStep_write3 {io : Io} {s s' : State} {d : ℕ} (h : userStep io s = some s')
    (hwrite : s'.user = .write3 d) : s.exitFlag = 4 ∧ stopTest s.user io = some d := by
  unfold userStep at h
  split at h
  case h_3 e huser =>
    -- the test at the start of `HandleEvents`
    cases h
    dsimp only at hwrite
    obtain ⟨hflag, rfl⟩ := stop_of_test hwrite (by simp)
    exact ⟨hflag, by rw [huser, stopTest]⟩
  case h_7 e isMatch huser =>
    -- the test of the loop
    cases h
    dsimp only at hwrite
    obtain ⟨hflag, rfl⟩ := stop_of_test hwrite (by split <;> simp)
    exact ⟨hflag, by rw [huser, stopTest]⟩
  case h_9 e isRelease huser =>
    -- the test after a match
    cases h
    dsimp only at hwrite
    obtain ⟨hflag, rfl⟩ := stop_of_test hwrite (by split <;> simp)
    exact ⟨hflag, by rw [huser, stopTest]⟩
  case h_4 | h_8 =>
    cases h
    exact absurd hwrite (returned1_ne_write3 _ _)
  case h_11 =>
    cases h
    exact absurd hwrite (returned0_ne_write3 _ _)
  case h_10 =>
    cases h
    dsimp only at hwrite
    split at hwrite
    · exact absurd hwrite (returned0_ne_write3 _ _)
    · cases hwrite
  case h_6 =>
    split at h
    · cases h
      cases hwrite
    · cases h
      rename_i huser _
      rw [huser] at hwrite
      cases hwrite
  case h_2 huser =>
    cases h
    rw [huser] at hwrite
    cases hwrite
  case h_12 =>
    cases h
    dsimp only at hwrite
    split at hwrite <;> cases hwrite
  all_goals
    cases h
    try cases hwrite

/-! ## The outermost activation -/

/-- While only the outermost activation reads the stop value, only it has one to
answer. -/
theorem reachable_write3 {s : State} (h : (capture opt).ReachableBy OutermostReads s) :
    ∀ d, s.user = .write3 d → d = 0 := by
  refine h.invariant (P := fun s => ∀ d, s.user = .write3 d → d = 0) ?_ ?_
  · rintro s rfl d hd
    cases hd
  · intro a s s' hs hok hstep d hd
    rw [capture_step] at hstep
    cases a with
    | main io => exact hs d (step_user_of_main hstep ▸ hd)
    | server io => exact hs d (step_user_of_server hstep ▸ hd)
    | user io =>
        have hreads := userStep_write3 (step_user hstep).2 hd
        by_contra hne
        apply hok
        refine ⟨hreads.1, ?_⟩
        rw [hreads.2]
        exact decide_eq_true (Nat.pos_of_ne_zero hne)

/-- A loop that has been left stays so. -/
theorem step_loopLeft {a : Act} {s s' : State} (h : LoopLeft s) (hstep : step opt a s = some s') :
    LoopLeft s' := by
  cases a with
  | main io =>
      unfold LoopLeft
      rw [step_user_of_main hstep]
      exact h
  | server io =>
      unfold LoopLeft
      rw [step_user_of_server hstep]
      exact h
  | user io =>
      have huser := (step_user hstep).2
      rcases h with hwrite | hfinished
      · right
        simp only [userStep, hwrite] at huser
        split at huser <;> simp_all
        rw [← huser]
      · simp [userStep, hfinished] at huser

/-! ## A recursive activation -/

/-- Where the flag is 3, the thread can find no more events at any depth, and
reaches the `select` of the next call from the loop. -/
theorem scan_to_select {s : State} (hlive : s.main ≠ .exited) (hflag : s.exitFlag = 3) {d : ℕ}
    (hscan : s.user = .scan d) :
    ∃ s', (capture opt).Steps (fun _ _ => True) s s' ∧ s'.user = .select 0 := by
  induction d generalizing s with
  | zero =>
      have hrun : (capture opt).run [.user .noMoreEvents, .user .ok, .user .ok] s
          = some { s with user := .select 0 } := by
        simp [Lib.System.run, Lib.System.runBy, capture_step, step, userStep, returned1, hlive,
          hflag, hscan]
      exact ⟨{ s with user := .select 0 }, Lib.System.steps_of_run hrun, rfl⟩
  | succ d ih =>
      -- the call that made the inner one goes on with its own events
      have hstep : step opt (.user .noMoreEvents) s = some { s with user := .scan d } := by
        simp [step, userStep, returned1, hlive, hscan]
      have hsteps := ih (s := { s with user := .scan d }) hlive hflag rfl
      rcases hsteps with ⟨s', hrest, hselect⟩
      have hfirst : (capture opt).Steps (fun _ _ => True) s { s with user := .scan d } :=
        Lib.System.Steps.single (.user .noMoreEvents) trivial hstep
      exact ⟨s', hfirst.trans hrest, hselect⟩

/-- The inner answer is thrown away. -/
theorem step_of_innerReadsStop {a : Act} {s t : State} (h : InnerReadsStop a s)
    (hstep : step opt a s = some t) : t.main ≠ .exited ∧ ∃ d, t.user = .write3 (d + 1) := by
  cases a with
  | main io => exact absurd h id
  | server io => exact absurd h id
  | user io =>
      have hlive := (step_user hstep).1
      have huser := (step_user hstep).2
      rcases h with ⟨hflag, hany⟩
      rcases (Option.any_eq_true _ _).mp hany with ⟨d, htest, hpos⟩
      have hd : d = d - 1 + 1 := by
        have := of_decide_eq_true hpos
        omega
      unfold stopTest at htest
      unfold userStep at huser
      split at htest
      all_goals
        rename_i hpc
        first
        | cases htest
          simp only [hpc, hflag, if_true] at huser
          cases huser
          exact ⟨hlive, d - 1, by rw [← hd]⟩
        | cases htest

/-! ## Runs -/

/-- In every run in which only the outermost activation reads the stop value,
the loop of `CaptureUserInput` has been left for good once an activation has
read it and answered 0; and where a recursive activation reads it, the run can
go on, after its answer, to the next `select`. -/
theorem inputThread_stops_runs (opt : Options) :
    (∀ s t s', (capture opt).ReachableBy OutermostReads s → AnswersStop opt s t →
      (capture opt).Steps OutermostReads t s' → LoopLeft s') ∧
    ∀ a s t, (capture opt).Reachable s → InnerReadsStop a s → step opt a s = some t →
      ∃ u s', AnswersStop opt t u ∧ (capture opt).Steps (fun _ _ => True) u s' ∧
        s'.user = .select 0 := by
  refine ⟨?_, ?_⟩
  · rintro s t s' hs ⟨d, hwrite, hstep⟩ hsteps
    have hd := reachable_write3 hs d hwrite
    have ht : LoopLeft t := by
      have huser := (step_user hstep).2
      simp only [userStep, hwrite, hd, returned0] at huser
      cases huser
      exact .inl rfl
    refine hsteps.preserves (P := LoopLeft) ?_ ht
    intro a u u' hu _ hnext
    exact step_loopLeft hu hnext
  · intro a s t _ hinner hstep
    rcases step_of_innerReadsStop hinner hstep with ⟨hlive, d, hwrite⟩
    have hanswer : step opt (.user .ok) t = some { t with exitFlag := 3, user := .scan d } := by
      simp [step, userStep, returned0, hlive, hwrite]
    have hgoes : ∃ s', (capture opt).Steps (fun _ _ => True)
        { t with exitFlag := 3, user := .scan d } s' ∧ s'.user = .select 0 :=
      scan_to_select hlive rfl rfl
    rcases hgoes with ⟨s', hsteps, hselect⟩
    exact ⟨_, s', ⟨d + 1, hwrite, hanswer⟩, hsteps, hselect⟩

/-! ## Two runs -/

/-- The input thread is in its loop when the STOP comes, and the next event
shows it. -/
theorem inputThread_stops_runs_event :
    ∃ s t s', (capture .live).runBy OutermostReads (untilReading ++
        [.user .ok, .user .ok, .user .ok] ++ stopConnection ++ [.user (.entry false)])
        State.initial = some s ∧
      AnswersStop .live s t ∧
      (capture .live).runBy OutermostReads [.user .ok] t = some s' ∧ LoopLeft s' := by
  have hrun : ((capture .live).runBy OutermostReads (untilReading ++
      [.user .ok, .user .ok, .user .ok] ++ stopConnection ++ [.user (.entry false)])
      State.initial).any (fun s => s.user = .write3 0 ∧ (step .live (.user .ok) s).any fun t =>
        ((capture .live).runBy OutermostReads [.user .ok] t).isSome) := by decide +kernel
  rcases (Option.any_eq_true _ _).mp hrun with ⟨s, hfirst, hs⟩
  rcases of_decide_eq_true hs with ⟨hwrite, hany⟩
  rcases (Option.any_eq_true _ _).mp hany with ⟨t, hstep, hsome⟩
  rcases Option.isSome_iff_exists.mp hsome with ⟨s', hrest⟩
  have hreach : (capture .live).ReachableBy OutermostReads s :=
    ⟨State.initial, rfl, Lib.System.steps_of_runBy hfirst⟩
  have hanswers : AnswersStop .live s t := ⟨0, hwrite, hstep⟩
  exact ⟨s, t, s', hfirst, hanswers, hrest,
    (inputThread_stops_runs .live).1 s t s' hreach hanswers (Lib.System.steps_of_runBy hrest)⟩

/-- The interface goes down and `select` fails; the STOP comes before the inner
activation begins, and the thread selects again. -/
theorem not_inputThread_stops_bearerChange :
    ¬ ∀ (opt : Options) (s t s' : State), (capture opt).Reachable s → AnswersStop opt s t →
      (capture opt).Steps (fun _ _ => True) t s' → ∀ d, s'.user ≠ .select d := by
  intro hall
  have hrun : ((capture .live).run (untilReading ++
      [.main (.returns (-1)), .main .ok, .main .ok, .main .ok, .user .ok, .user .ok,
        .user .fails] ++ stopConnection ++ [.user .ok]) State.initial).any (fun s =>
        s.user = .write3 1 ∧ (step .live (.user .ok) s).any fun t =>
          ((capture .live).run [.user .noMoreEvents, .user .ok, .user .ok] t).any fun s' =>
            s'.user = .select 0) := by decide +kernel
  rcases (Option.any_eq_true _ _).mp hrun with ⟨s, hfirst, hs⟩
  rcases of_decide_eq_true hs with ⟨hwrite, hany⟩
  rcases (Option.any_eq_true _ _).mp hany with ⟨t, hstep, hrest⟩
  rcases (Option.any_eq_true _ _).mp hrest with ⟨s', hsteps, hselect⟩
  exact hall .live s t s' (Lib.System.reachable_of_run rfl hfirst) ⟨1, hwrite, hstep⟩
    (Lib.System.steps_of_run hsteps) 0 (of_decide_eq_true hselect)

end MobiPerf.Capture
