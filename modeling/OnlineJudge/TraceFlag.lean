import OnlineJudge.Judger

/-! The trace flag: the same run of a program, seen once by `TraceLoop` and once by
`WaitExit`. -/
namespace OnlineJudge
open Posix

/-- A run that makes only permitted system calls and takes no signal but the one that may end
it. What the program does when that signal is withheld from it is any run, or none that ends. -/
structure PermittedRun (limit : CallLimit) where
  execStop : UInt64 × Rusage
  calls : List (UInt64 × Rusage)
  permitted : ∀ c ∈ calls, toInt c.1 ∈ limit
  fate : Fate
  resource : Rusage
  signalRax : UInt64
  withheld : Option Ended

namespace PermittedRun
variable {limit : CallLimit} (run : PermittedRun limit)

def callStops : List Stop :=
  (run.execStop :: run.calls).map (fun c => ⟨SIGTRAP, c.1, c.2⟩)

/-- What `TraceLoop` sees: the delivery of every signal but `SIGKILL` stops the child, and
`PTRACE_SYSCALL` without a signal number withholds it. -/
def traced : ChildFate :=
  match run.fate with
  | .exited _ => .ended ⟨run.callStops, run.fate, run.resource⟩
  | .signaled sig _ =>
    let stops := run.callStops ++ [⟨sig, run.signalRax, run.resource⟩]
    if sig = SIGKILL then .ended ⟨run.callStops, run.fate, run.resource⟩
    else
      match run.withheld with
      | some rest => .ended ⟨stops ++ rest.stops, rest.fate, rest.resource⟩
      | none =>
        if traceAllows limit false stops then .endless
        else .ended ⟨stops, .signaled SIGKILL false, run.resource⟩

def untraced : ChildFate := .ended ⟨[], run.fate, run.resource⟩

theorem callStops_allowed : traceAllows limit false run.callStops = true := by
  have hcalls : ∀ calls : List (UInt64 × Rusage), (∀ c ∈ calls, toInt c.1 ∈ limit) →
      traceAllows limit true (calls.map (fun c => (⟨SIGTRAP, c.1, c.2⟩ : Stop))) = true := by
    intro calls hpermitted
    induction calls with
    | nil => rfl
    | cons c calls ih =>
      have hc := hpermitted c (by simp)
      have hrest := ih (fun d hd => hpermitted d (by simp [hd]))
      simpa [traceAllows, stopAllowed, hc] using hrest
  simpa [callStops, traceAllows, stopAllowed] using hcalls run.calls run.permitted

end PermittedRun

def ExecuteCondtion.withTrace (cond : ExecuteCondtion) (trace : Bool) : ExecuteCondtion :=
  { cond with trace }

@[simp] theorem withTrace_trace (cond : ExecuteCondtion) (trace : Bool) :
    (cond.withTrace trace).trace = trace := rfl

section Flag
variable (host : Host) (judger : Judger) (cond : ExecuteCondtion)

/-- `execute` on this run with the flag on, and with the flag off. -/
def executeTraced (run : PermittedRun judger.getCallLimit) (userout rightout : FileView)
    (results : Results) : Call (Bool × Results) :=
  judger.execute host.pagesize (cond.withTrace true) ⟨run.traced, userout, none⟩ rightout results

def executeUntraced (run : PermittedRun judger.getCallLimit) (userout rightout : FileView)
    (results : Results) : Call (Bool × Results) :=
  judger.execute host.pagesize (cond.withTrace false) ⟨run.untraced, userout, none⟩ rightout
    results

def SameVerdict (run : PermittedRun judger.getCallLimit) (userout rightout : FileView)
    (results : Results) : Prop :=
  ∃ out, executeTraced host judger cond run userout rightout results = .ok out ∧
    executeUntraced host judger cond run userout rightout results = .ok out

theorem exitResults_withTrace (pagesize : ℤ) (trace : Bool) (resource : Rusage) :
    exitResults pagesize (judger.executeCondtion (cond.withTrace trace)) resource =
      exitResults pagesize (judger.executeCondtion cond) resource := by
  cases judger <;> rfl

/-- After a `kOk` of `Judge` the checker decides the boolean, and may replace the verdict. -/
theorem execute_checked (run : ChildRun) (rightout : FileView) (results judged : Results)
    {child : Child} (hchild : run.fate.child cond.trace = some child)
    (hjudge : Judge.run host.pagesize (judger.executeCondtion cond) judger.getCallLimit child =
      .ok (.kOk, judged)) :
    ∃ out, judger.execute host.pagesize cond run rightout results = .ok out ∧
      (out = (true, judged) ∨ ∃ verdict : JudgeResult, verdict.IsRejection ∧
        out = (false, { judged with judgeResult := verdict })) := by
  obtain ⟨checked, hcheck, hchecked⟩ :=
    checker_run_returns host.pagesize host.max_lt_pagesize run.output rightout
  refine ⟨_, execute_ok host judger cond run rightout results hchild hjudge hcheck, ?_⟩
  rcases hchecked with ⟨hcode, _⟩ | ⟨hcode, hrej⟩
  · exact Or.inl (if_neg (by simp [hcode]))
  · exact Or.inr ⟨checked.2.result, hrej, if_pos hcode⟩

theorem execute_congr (cond' : ExecuteCondtion) (run run' : ChildRun) (rightout : FileView)
    (results judged : Results) {child child' : Child} (hout : run.output = run'.output)
    (hchild : run.fate.child cond.trace = some child)
    (hchild' : run'.fate.child cond'.trace = some child')
    (hjudge : Judge.run host.pagesize (judger.executeCondtion cond) judger.getCallLimit child =
      .ok (.kOk, judged))
    (hjudge' : Judge.run host.pagesize (judger.executeCondtion cond') judger.getCallLimit child' =
      .ok (.kOk, judged)) :
    judger.execute host.pagesize cond run rightout results =
      judger.execute host.pagesize cond' run' rightout results := by
  obtain ⟨checked, hcheck, _⟩ :=
    checker_run_returns host.pagesize host.max_lt_pagesize run.output rightout
  rw [execute_ok host judger cond run rightout results hchild hjudge hcheck,
    execute_ok host judger cond' run' rightout results hchild' hjudge'
      (by rw [← hout]; exact hcheck)]

/-- A traced child is killed with a verdict of the tracer, or it exits and no signal is
reported. -/
theorem execute_traced_cases (htrace : cond.trace = true) (e : Ended) (userout : FileView)
    (work : Option Node) (rightout : FileView) (results : Results) {out : Bool × Results}
    (h : judger.execute host.pagesize cond ⟨.ended e, userout, work⟩ rightout results =
      .ok out) :
    (out.1 = false ∧ out.2.judgeResult.IsKill) ∨ out.2.signumResult = -1 := by
  have hcond : (judger.executeCondtion cond).trace = true := by simp [htrace]
  -- the tracer ends the test itself, or `execute` hands a clean run to the checker
  by_cases hkill : StoppedByTracer (judger.executeCondtion cond) judger.getCallLimit e
  · obtain ⟨judged, hjudge, hk⟩ := judge_killed host judger cond e hkill
    left
    have hexec := execute_error host judger cond ⟨.ended e, userout, work⟩ rightout results rfl
      hjudge
    rw [← call_ok_unique hexec h]
    exact ⟨rfl, hk⟩
  · have hallow : traceAllows judger.getCallLimit false e.stops = true ∧ e.fate.exits = true := by
      simpa [StoppedByTracer, htrace] using hkill
    have hjudge := judge_run_traced host.pagesize _ judger.getCallLimit hcond e hallow.1 hallow.2
    obtain ⟨out', hexec, hout⟩ := execute_checked host judger cond ⟨.ended e, userout, work⟩
      rightout results _ rfl (by simpa [htrace] using hjudge)
    rw [hexec, Except.ok.injEq] at h
    right
    rw [← h]
    rcases hout with hout | ⟨verdict, _, hout⟩ <;> rw [hout] <;> rfl

/-- Without a tracer a run that a signal ends is reported with the signal, and refused only by
the checker. -/
theorem execute_untraced_signaled (htrace : cond.trace = false) (sig : Signal) (core : Bool)
    (resource : Rusage) (userout : FileView) (work : Option Node) (rightout : FileView)
    (results : Results) {out : Bool × Results}
    (h : judger.execute host.pagesize cond ⟨.ended ⟨[], .signaled sig core, resource⟩, userout,
      work⟩ rightout results = .ok out) :
    out.2.signumResult = sig.num ∧ (out.1 = true ∨ out.2.judgeResult.IsRejection) := by
  have hcond : (judger.executeCondtion cond).trace = false := by simp [htrace]
  have hjudge := judge_run_plain host.pagesize _ judger.getCallLimit hcond
    ⟨[], .signaled sig core, resource⟩
  rw [waitExitResults_fate] at hjudge
  obtain ⟨out', hexec, hout⟩ := execute_checked host judger cond
    ⟨.ended ⟨[], .signaled sig core, resource⟩, userout, work⟩ rightout results _
    rfl (by simpa [htrace] using hjudge)
  rw [hexec, Except.ok.injEq] at h
  rw [← h]
  rcases hout with hout | ⟨verdict, hrej, hout⟩ <;> rw [hout]
  · exact ⟨rfl, Or.inl rfl⟩
  · exact ⟨rfl, Or.inr hrej⟩

theorem isKill_not_isRejection {r : JudgeResult} (hkill : r.IsKill) : ¬ r.IsRejection := by
  rcases hkill with h | h | h <;> simp [JudgeResult.IsRejection, h]

theorem sameVerdict_of_exits (run : PermittedRun judger.getCallLimit)
    (userout rightout : FileView) (results : Results) (hexit : run.fate.exits = true) :
    SameVerdict host judger cond run userout rightout results := by
  have htraced : run.traced = .ended ⟨run.callStops, run.fate, run.resource⟩ := by
    unfold PermittedRun.traced
    cases hfate : run.fate with
    | exited code => rfl
    | signaled sig core => simp [hfate, Fate.exits] at hexit
  have hjudge := judge_run_traced host.pagesize
    (judger.executeCondtion (cond.withTrace true)) judger.getCallLimit (by simp)
    ⟨run.callStops, run.fate, run.resource⟩ run.callStops_allowed hexit
  have hplain := judge_run_plain host.pagesize
    (judger.executeCondtion (cond.withTrace false)) judger.getCallLimit (by simp)
    ⟨[], run.fate, run.resource⟩
  -- an exit status is read the same way in both modes
  have hwait : waitExitResults host.pagesize (judger.executeCondtion (cond.withTrace false))
      (Ended.fateEvent ⟨[], run.fate, run.resource⟩) =
        exitResults host.pagesize (judger.executeCondtion (cond.withTrace false))
          run.resource := by
    rw [waitExitResults_fate]
    cases hfate : run.fate with
    | exited code => rfl
    | signaled sig core => simp [hfate, Fate.exits] at hexit
  rw [hwait, exitResults_withTrace] at hplain
  rw [exitResults_withTrace] at hjudge
  have hsame := execute_congr host judger (cond.withTrace true) (cond.withTrace false)
    ⟨run.traced, userout, none⟩ ⟨run.untraced, userout, none⟩ rightout results _ rfl
    (by rw [htraced]; rfl) rfl hjudge hplain
  obtain ⟨out, hexec, _⟩ := execute_checked host judger (cond.withTrace false)
    ⟨run.untraced, userout, none⟩ rightout results _ rfl hplain
  exact ⟨out, hsame.trans hexec, hexec⟩

/-- The flag leaves the results of a run alone exactly when the program exits by itself. -/
theorem sameVerdict_iff_exits (run : PermittedRun judger.getCallLimit)
    (userout rightout : FileView) (results : Results) :
    SameVerdict host judger cond run userout rightout results ↔ run.fate.exits = true := by
  constructor
  · rintro ⟨out, htraced, hplain⟩
    cases hfate : run.fate with
    | exited code => rfl
    | signaled sig core =>
      exfalso
      rw [executeUntraced, PermittedRun.untraced, hfate] at hplain
      obtain ⟨hsignum, hor⟩ := execute_untraced_signaled host judger (cond.withTrace false) rfl
        sig core run.resource userout none rightout results hplain
      -- a child that never ends leaves `TraceLoop` waiting
      have hends : ∃ e, run.traced = .ended e :=
        execute_returns host judger (cond.withTrace true) ⟨run.traced, userout, none⟩ rightout
          results htraced
      obtain ⟨e, he⟩ := hends
      rw [executeTraced, he] at htraced
      rcases execute_traced_cases host judger (cond.withTrace true) rfl e userout none rightout
        results htraced with ⟨hfalse, hkill⟩ | hnone
      · rcases hor with htrue | hrej
        · simp [hfalse] at htrue
        · exact isKill_not_isRejection hkill hrej
      -- an exit reports -1, and the signal has a positive number
      · have hpos := sig.pos
        omega
  · exact sameVerdict_of_exits host judger cond run userout rightout results

end Flag

/-- A Ruby program that prints the expected line and then takes a segmentation fault. -/
def segfaultAtEnd : PermittedRun rubyCallLimit where
  execStop := (59, ⟨0, 0, 10⟩)
  calls := [(1, ⟨0, 0, 20⟩), (1, ⟨0, 0, 20⟩)]
  permitted := by decide
  fate := .signaled SIGSEGV true
  resource := ⟨0, 0, 30⟩
  signalRax := 18446744073709551615
  withheld := none

/-- The verdict of a program that ends with a signal depends on the flag. -/
theorem not_sameVerdict : ¬ ∀ (host : Host) (judger : Judger) (cond : ExecuteCondtion)
    (run : PermittedRun judger.getCallLimit) (userout rightout : FileView) (results : Results),
    SameVerdict host judger cond run userout rightout results := by
  intro hclaim
  obtain ⟨out, htraced, hplain⟩ := hclaim .standard .judgeRuby ⟨1000, 65536, -1, true, 0⟩
    segfaultAtEnd { data := str "1\n" } { data := str "1\n" } {}
  have hne : executeTraced .standard .judgeRuby ⟨1000, 65536, -1, true, 0⟩ segfaultAtEnd
      { data := str "1\n" } { data := str "1\n" } {} ≠
    executeUntraced .standard .judgeRuby ⟨1000, 65536, -1, true, 0⟩ segfaultAtEnd
      { data := str "1\n" } { data := str "1\n" } {} := by decide +kernel
  exact hne (htraced.trans hplain.symm)

end OnlineJudge
