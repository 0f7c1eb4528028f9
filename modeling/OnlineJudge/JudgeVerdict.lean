import OnlineJudge.Judge

/-! What `Judge::Run` makes of a child that runs to its end. -/
namespace OnlineJudge
open Posix

section Verdict
variable (pagesize : ℤ) (cond : ExecuteCondtion) (limit : CallLimit)

@[simp] theorem traceStep_exited (inSyscall : Bool) (code : UInt8) (resource : Rusage) :
    traceStep pagesize cond limit inSyscall (.exited code resource) =
      .finish (exitResults pagesize cond resource) := by
  simp [traceStep, WaitEvent.status, WaitEvent.resource]

@[simp] theorem traceStep_signaled (inSyscall : Bool) (sig : Signal) (core : Bool)
    (resource : Rusage) :
    traceStep pagesize cond limit inSyscall (.signaled sig core resource) =
      .kill (signalResults pagesize cond 0 resource) := by
  simp [traceStep, WaitEvent.status, WaitEvent.resource, SIGTRAP]

theorem traceStep_signal_stop (inSyscall : Bool) (sig : Signal) (hsig : sig ≠ SIGTRAP)
    (origRax : UInt64) (resource : Rusage) :
    traceStep pagesize cond limit inSyscall (.stopped sig origRax resource) =
      .kill (signalResults pagesize cond sig.num resource) := by
  simp [traceStep, WaitEvent.status, WaitEvent.resource, Signal.num_inj, hsig]

theorem traceStep_trap (inSyscall : Bool) (origRax : UInt64) (resource : Rusage) :
    traceStep pagesize cond limit inSyscall (.stopped SIGTRAP origRax resource) =
      if inSyscall && !limit.contains (toInt origRax) then
        .kill (forbiddenResults pagesize resource)
      else .resume := by
  simp [traceStep, WaitEvent.status, WaitEvent.resource, WaitEvent.origRax]

/-- The inversion of the loop body: it goes round only after a `SIGTRAP` stop that is the
first one or shows a permitted system call. -/
theorem traceStep_resume_iff (inSyscall : Bool) (e : WaitEvent) :
    traceStep pagesize cond limit inSyscall e = .resume ↔
      ∃ origRax resource, e = .stopped SIGTRAP origRax resource ∧
        (inSyscall = true → toInt origRax ∈ limit) := by
  cases e with
  | exited code resource => simp
  | signaled sig core resource => simp
  | stopped sig origRax resource =>
    by_cases hsig : sig = SIGTRAP
    · subst hsig
      rw [traceStep_trap]
      cases inSyscall <;> by_cases hmem : toInt origRax ∈ limit <;> simp [hmem]
    · rw [traceStep_signal_stop _ _ _ _ _ hsig]
      simp [hsig]

/-- The verdicts that the branches of `TraceLoop` which kill the child can set. -/
def JudgeResult.IsKill (r : JudgeResult) : Prop := r = .kMLE ∨ r = .kRE ∨ r = .kTLE

theorem JudgeResult.IsKill.ne_accepted {r : JudgeResult} (h : r.IsKill) : r ≠ .kAC := by
  rcases h with h | h | h <;> simp [h]

theorem signalResults_isKill (sig : ℕ) (resource : Rusage) :
    (signalResults pagesize cond sig resource).judgeResult.IsKill := by
  simp only [signalResults, signalResult, JudgeResult.IsKill]
  split_ifs <;> simp

theorem traceStep_kill_isKill {inSyscall : Bool} {e : WaitEvent} {results : Results}
    (h : traceStep pagesize cond limit inSyscall e = .kill results) :
    results.judgeResult.IsKill := by
  unfold traceStep at h
  split_ifs at h
  · cases h
    exact signalResults_isKill pagesize cond _ _
  · cases h
    exact Or.inr (Or.inl rfl)

def stopAllowed (inSyscall : Bool) (s : Stop) : Bool :=
  s.sig = SIGTRAP && (!inSyscall || limit.contains (toInt s.origRax))

def traceAllows : Bool → List Stop → Bool
  | _, [] => true
  | inSyscall, s :: rest => stopAllowed limit inSyscall s && traceAllows true rest

theorem traceStep_stop_resume_iff (inSyscall : Bool) (s : Stop) :
    traceStep pagesize cond limit inSyscall (.stopped s.sig s.origRax s.resource) = .resume ↔
      stopAllowed limit inSyscall s = true := by
  rw [traceStep_resume_iff]
  cases inSyscall <;> simp [stopAllowed]

theorem traceStep_stop_refused {inSyscall : Bool} {s : Stop}
    (h : ¬ stopAllowed limit inSyscall s = true) :
    ∃ results, traceStep pagesize cond limit inSyscall
      (.stopped s.sig s.origRax s.resource) = .kill results := by
  have hne := (traceStep_stop_resume_iff pagesize cond limit inSyscall s).not.mpr h
  cases hstep : traceStep pagesize cond limit inSyscall
      (.stopped s.sig s.origRax s.resource) with
  | resume => exact absurd hstep hne
  | kill results => exact ⟨results, rfl⟩
  | finish results =>
    unfold traceStep at hstep
    split_ifs at hstep with hexit
    simp [WaitEvent.status] at hexit

/-- Stops that the tracer allows leave the result to the answers after them. -/
theorem traceLoop_allowed (stops : List Stop) (rest : List Answer) (inSyscall : Bool)
    (h : traceAllows limit inSyscall stops = true) :
    (traceLoop pagesize cond limit inSyscall
      (stops.map (fun s => .event (.stopped s.sig s.origRax s.resource)) ++ rest)).result =
    (traceLoop pagesize cond limit (inSyscall || !stops.isEmpty) rest).result := by
  induction stops generalizing inSyscall with
  | nil => simp
  | cons s stops ih =>
    simp only [traceAllows, Bool.and_eq_true] at h
    have hstep := (traceStep_stop_resume_iff pagesize cond limit inSyscall s).mpr h.1
    simp only [List.map_cons, List.cons_append, traceLoop, hstep, TraceRun.cons]
    rw [ih true h.2]
    simp

theorem traceLoop_refused (stops : List Stop) (rest : List Answer) (inSyscall : Bool)
    (h : traceAllows limit inSyscall stops = false) :
    ∃ results, (traceLoop pagesize cond limit inSyscall
      (stops.map (fun s => .event (.stopped s.sig s.origRax s.resource)) ++ rest)).result =
        .ok (.kError, results) ∧ results.judgeResult.IsKill := by
  induction stops generalizing inSyscall with
  | nil => simp [traceAllows] at h
  | cons s stops ih =>
    -- the first stop that is not allowed ends the loop
    by_cases hs : stopAllowed limit inSyscall s = true
    · have hrest : traceAllows limit true stops = false := by
        simpa only [traceAllows, hs, Bool.true_and] using h
      have hstep := (traceStep_stop_resume_iff pagesize cond limit inSyscall s).mpr hs
      simp only [List.map_cons, List.cons_append, traceLoop, hstep, TraceRun.cons]
      exact ih true hrest
    · obtain ⟨results, hstep⟩ := traceStep_stop_refused pagesize cond limit hs
      refine ⟨results, ?_, traceStep_kill_isKill pagesize cond limit hstep⟩
      simp only [List.map_cons, List.cons_append, traceLoop, hstep]

/-- `TraceLoop` ends this run by `PTRACE_KILL`: at a stop that it does not allow, or on a
final status that is not an exit. -/
def StoppedByTracer (run : Ended) : Prop :=
  cond.trace = true ∧ ¬ (traceAllows limit false run.stops = true ∧ run.fate.exits = true)

instance (run : Ended) : Decidable (StoppedByTracer cond limit run) :=
  inferInstanceAs (Decidable (_ ∧ _))

def WithinLimits (run : Ended) : Prop :=
  run.fate.exits = true ∧ timeUsed run.resource ≤ cond.timeLimit ∧
    memoryUsed pagesize cond.memoryAdd run.resource ≤ cond.memoryLimit

instance (run : Ended) : Decidable (WithinLimits pagesize cond run) :=
  inferInstanceAs (Decidable (_ ∧ _))

theorem limitResult_accepted_iff (time memory : UInt32) :
    limitResult cond time memory = .kAC ↔ time ≤ cond.timeLimit ∧ memory ≤ cond.memoryLimit := by
  unfold limitResult
  split_ifs with ht hm
  · simp [UInt32.not_le.mpr ht]
  · simp [UInt32.not_le.mpr hm]
  · simp [UInt32.not_lt.mp ht, UInt32.not_lt.mp hm]

theorem traceLoop_fate (inSyscall : Bool) (run : Ended) :
    (traceLoop pagesize cond limit inSyscall [.event run.fateEvent]).result =
      if run.fate.exits then .ok (.kOk, exitResults pagesize cond run.resource)
      else .ok (.kError, signalResults pagesize cond 0 run.resource) := by
  unfold Ended.fateEvent
  cases run.fate with
  | exited code => simp [traceLoop, Fate.exits]
  | signaled sig core => simp [traceLoop, Fate.exits]

theorem waitExitResults_fate (run : Ended) :
    waitExitResults pagesize cond run.fateEvent =
      match run.fate with
      | .exited _ => exitResults pagesize cond run.resource
      | .signaled sig _ => signalResults pagesize cond sig.num run.resource := by
  unfold Ended.fateEvent waitExitResults
  cases run.fate with
  | exited code => simp [WaitEvent.status, WaitEvent.resource]
  | signaled sig core => simp [WaitEvent.status, WaitEvent.resource, wtermsig_signaled]

theorem Ended.child_answers_traced (run : Ended) :
    (run.child true).answers =
      run.stops.map (fun s => .event (.stopped s.sig s.origRax s.resource)) ++
        [.event run.fateEvent] := by
  simp [Ended.child, Ended.events, Ended.stopEvents]

theorem judge_run_traced (htrace : cond.trace = true) (run : Ended)
    (hallow : traceAllows limit false run.stops = true) (hexit : run.fate.exits = true) :
    Judge.run pagesize cond limit (run.child true) =
      .ok (.kOk, exitResults pagesize cond run.resource) := by
  have hanswers := run.child_answers_traced
  simp only [Judge.run, Ended.child, htrace, if_true] at hanswers ⊢
  rw [hanswers, traceLoop_allowed _ _ _ _ _ _ hallow, traceLoop_fate, if_pos hexit]

/-- A run that the tracer stops ends with `kError` and one of its three verdicts. -/
theorem judge_run_stopped (run : Ended) (h : StoppedByTracer cond limit run) :
    ∃ results, Judge.run pagesize cond limit (run.child cond.trace) = .ok (.kError, results) ∧
      results.judgeResult.IsKill := by
  obtain ⟨htrace, hnot⟩ := h
  have hanswers := run.child_answers_traced
  simp only [Judge.run, Ended.child, htrace, if_true] at hanswers ⊢
  rw [hanswers]
  cases hallow : traceAllows limit false run.stops with
  | false => exact traceLoop_refused pagesize cond limit _ _ _ hallow
  | true =>
    -- every stop is resumed, and the last report is a death
    have hexit : run.fate.exits = false := by simpa [hallow] using hnot
    refine ⟨_, ?_, signalResults_isKill pagesize cond 0 run.resource⟩
    rw [traceLoop_allowed _ _ _ _ _ _ hallow, traceLoop_fate]
    simp [hexit]

theorem judge_run_plain (htrace : cond.trace = false) (run : Ended) :
    Judge.run pagesize cond limit (run.child false) =
      .ok (.kOk, waitExitResults pagesize cond run.fateEvent) := by
  simp [Judge.run, Ended.child, Ended.events, htrace, waitExit]

/-- A run that no tracer stops ends with `kOk`, whatever its verdict. -/
theorem judge_run_finished (run : Ended) (h : ¬ StoppedByTracer cond limit run) :
    ∃ results, Judge.run pagesize cond limit (run.child cond.trace) = .ok (.kOk, results) ∧
      (results.judgeResult = .kAC ↔ WithinLimits pagesize cond run) := by
  cases htrace : cond.trace with
  | true =>
    have hallow : traceAllows limit false run.stops = true ∧ run.fate.exits = true := by
      simpa [StoppedByTracer, htrace] using h
    refine ⟨_, judge_run_traced pagesize cond limit htrace run hallow.1 hallow.2, ?_⟩
    simp only [exitResults, WithinLimits, hallow.2, true_and]
    exact limitResult_accepted_iff cond _ _
  | false =>
    refine ⟨_, judge_run_plain pagesize cond limit htrace run, ?_⟩
    rw [waitExitResults_fate]
    cases hfate : run.fate with
    | exited code =>
      simp only [exitResults, WithinLimits, hfate, Fate.exits, true_and]
      exact limitResult_accepted_iff cond _ _
    | signaled sig core =>
      have hne := (signalResults_isKill pagesize cond sig.num run.resource).ne_accepted
      simp [WithinLimits, hfate, Fate.exits, hne]

end Verdict

end OnlineJudge
