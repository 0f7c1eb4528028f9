import OnlineJudge.Verdict

/-! One test has two classifiers, `Judge::Run` and `Checker::run`: which of their verdicts is
left by `execute`. -/
namespace OnlineJudge
open Posix

section Classes
variable (pagesize : ℤ) (cond : ExecuteCondtion) (limit : CallLimit)

theorem limitResult_isKill (time memory : UInt32) (h : limitResult cond time memory ≠ .kAC) :
    (limitResult cond time memory).IsKill := by
  unfold limitResult at h ⊢
  split_ifs at h ⊢
  · exact Or.inr (Or.inr rfl)
  · exact Or.inl rfl
  · exact absurd rfl h

/-- The verdicts of `Judge` beside `kAC` are those of resources and signals. -/
theorem judge_run_isKill (run : Ended) {code : ReturnCode} {results : Results}
    (h : Judge.run pagesize cond limit (run.child cond.trace) = .ok (code, results))
    (hne : results.judgeResult ≠ .kAC) : results.judgeResult.IsKill := by
  -- stopped by the tracer, traced to the end, or waited for
  by_cases hkill : StoppedByTracer cond limit run
  · obtain ⟨r, hr, hk⟩ := judge_run_stopped pagesize cond limit run hkill
    have hres := (Prod.mk.inj (call_ok_unique hr h)).2
    rw [← hres]
    exact hk
  · cases htrace : cond.trace with
    | true =>
      have hallow : traceAllows limit false run.stops = true ∧ run.fate.exits = true := by
        simpa [StoppedByTracer, htrace] using hkill
      have hr := judge_run_traced pagesize cond limit htrace run hallow.1 hallow.2
      rw [htrace] at h
      have hres := (Prod.mk.inj (call_ok_unique hr h)).2
      rw [← hres] at hne ⊢
      exact limitResult_isKill cond _ _ hne
    | false =>
      have hr := judge_run_plain pagesize cond limit htrace run
      rw [htrace] at h
      have hres := (Prod.mk.inj (call_ok_unique hr h)).2
      rw [waitExitResults_fate] at hres
      rw [← hres] at hne ⊢
      cases hfate : run.fate with
      | exited exitCode =>
        rw [hfate] at hne
        exact limitResult_isKill cond _ _ hne
      | signaled sig core => exact signalResults_isKill pagesize cond _ _

end Classes

section Execute
variable (host : Host) (judger : Judger) (cond : ExecuteCondtion) (run : Ended)
  (userout rightout : FileView) (work : Option Node) (results : Results)

/-- `execute` on a child that ends: the verdict of `Judge` stands and ends the tests when it is
not `kAC`, and is replaced by that of the checker when it is. -/
structure Precedence (judged : Results) (checked : ReturnCode × Checker) (out : Bool × Results) :
    Prop where
  judge : judged.judgeResult ≠ .kAC →
    out.2.judgeResult = judged.judgeResult ∧ out.1 = false
  checker : judged.judgeResult = .kAC → out.2.judgeResult = checked.2.result
  accepted : out.1 = true ↔ judged.judgeResult = .kAC ∧ checked.1 = .kOk

def KeepsPrecedence : Prop :=
  ∃ code judged checked out,
    Judge.run host.pagesize (judger.executeCondtion cond) judger.getCallLimit
      (run.child cond.trace) = .ok (code, judged) ∧
    Checker.run host.pagesize userout rightout = .ok checked ∧
    judger.execute host.pagesize cond ⟨.ended run, userout, work⟩ rightout results = .ok out ∧
    Precedence judged checked out

/-- What `execute` makes of a test that the tracer does not kill. -/
theorem execute_finished (hkill : ¬ StoppedByTracer (judger.executeCondtion cond)
    judger.getCallLimit run) :
    ∃ judged checked,
      Judge.run host.pagesize (judger.executeCondtion cond) judger.getCallLimit
        (run.child cond.trace) = .ok (.kOk, judged) ∧
      (judged.judgeResult = .kAC ↔
        WithinLimits host.pagesize (judger.executeCondtion cond) run) ∧
      Checker.run host.pagesize userout rightout = .ok checked ∧ Checked checked ∧
      judger.execute host.pagesize cond ⟨.ended run, userout, work⟩ rightout results =
        .ok (if checked.1 = .kError then
          (false, { judged with judgeResult := checked.2.result }) else (true, judged)) := by
  obtain ⟨judged, hjudge, hlimits⟩ := judge_finished host judger cond run hkill
  obtain ⟨checked, hcheck, hchecked⟩ :=
    checker_run_returns host.pagesize host.max_lt_pagesize userout rightout
  have hexec := execute_ok host judger cond ⟨.ended run, userout, work⟩ rightout results rfl
    hjudge hcheck
  exact ⟨judged, checked, hjudge, hlimits, hcheck, hchecked, hexec⟩

/-- The verdict of `Judge` takes precedence exactly in the runs that the tracer kills and those
within their limits: the others return `kOk` all the same, and go to the checker. -/
theorem execute_precedence_iff :
    KeepsPrecedence host judger cond run userout rightout work results ↔
      StoppedByTracer (judger.executeCondtion cond) judger.getCallLimit run ∨
        WithinLimits host.pagesize (judger.executeCondtion cond) run := by
  by_cases hkill : StoppedByTracer (judger.executeCondtion cond) judger.getCallLimit run
  -- a run that the tracer kills never reaches the checker
  · obtain ⟨judged, hjudge, hk⟩ := judge_killed host judger cond run hkill
    obtain ⟨checked, hcheck, _⟩ :=
      checker_run_returns host.pagesize host.max_lt_pagesize userout rightout
    have hexec := execute_error host judger cond ⟨.ended run, userout, work⟩ rightout results
      rfl hjudge
    have hprec : Precedence judged checked (false, judged) := by
      constructor <;> simp [hk.ne_accepted]
    exact ⟨fun _ => Or.inl hkill, fun _ => ⟨_, _, _, _, hjudge, hcheck, hexec, hprec⟩⟩
  · obtain ⟨judged, checked, hjudge, hlimits, hcheck, hchecked, hexec⟩ :=
      execute_finished host judger cond run userout rightout work results hkill
    constructor
    · rintro ⟨code, judged', checked', out, hjudge', _, hexec', hprec⟩
      have hjudged := (Prod.mk.inj (call_ok_unique hjudge hjudge')).2
      have hout := call_ok_unique hexec hexec'
      right
      rw [← hlimits]
      by_contra hne
      have hfalse := hprec.judge (by rw [← hjudged]; exact hne)
      have hisKill := judge_run_isKill host.pagesize (judger.executeCondtion cond)
        judger.getCallLimit run (by rw [judger.executeCondtion_trace]; exact hjudge) hne
      rw [← hout, ← hjudged] at hfalse
      rcases hchecked with ⟨hcode, _⟩ | ⟨hcode, hrej⟩
      · simp [hcode] at hfalse
      -- a verdict of the checker is none of `Judge`
      · rw [if_pos hcode] at hfalse
        have heq : checked.2.result = judged.judgeResult := hfalse.1
        rw [heq] at hrej
        rcases hisKill with h | h | h <;> simp [JudgeResult.IsRejection, h] at hrej
    -- within its limits the run is `kAC` for `Judge`, and the checker decides
    · intro h
      have hac : judged.judgeResult = .kAC := hlimits.mpr (h.resolve_left hkill)
      refine ⟨_, _, _, _, hjudge, hcheck, hexec, ?_⟩
      rcases hchecked with ⟨hcode, hres⟩ | ⟨hcode, _⟩
      · constructor <;> simp [hcode, hac, hres]
      · constructor <;> simp [hcode, hac]

end Execute

/-- A run that takes two seconds of the one it has, and prints what is expected. -/
theorem not_keepsPrecedence :
    ¬ KeepsPrecedence .standard .judgeRuby rubyConf.executeCondtion (slowFirst 0).run
      (slowFirst 0).userout (slowFirst 0).rightout none {} := by
  intro ⟨code, judged, checked, out, hjudge, _, hexec, hprec⟩
  have hslow : Judge.run Host.standard.pagesize
      (Judger.judgeRuby.executeCondtion rubyConf.executeCondtion) Judger.judgeRuby.getCallLimit
      ((slowFirst 0).run.child rubyConf.executeCondtion.trace) =
      .ok (.kOk, { judgeResult := .kTLE, timeUsed := 2000, memoryUsed := 5952 }) := by
    decide +kernel
  have htrue : Judger.judgeRuby.execute Host.standard.pagesize rubyConf.executeCondtion
      ⟨.ended (slowFirst 0).run, (slowFirst 0).userout, none⟩ (slowFirst 0).rightout {} =
      .ok (true, { judgeResult := .kTLE, timeUsed := 2000, memoryUsed := 5952 }) := by
    decide +kernel
  have hjudged := (Prod.mk.inj (call_ok_unique hslow hjudge)).2
  have hout := call_ok_unique htrue hexec
  have hstop := hprec.judge (by rw [← hjudged]; decide)
  rw [← hout] at hstop
  simp at hstop

end OnlineJudge
