import OnlineJudge.TraceKernel
import OnlineJudge.Verdict

/-! The policing of system calls, from the answers of `TraceLoop` up to the reply: a traced
submission executes only what its whitelist permits, and one that attempts more is reported
with `kRE`. -/
namespace OnlineJudge
open Posix

/-- The task has stopped at the entry of a system call that the whitelist does not permit. -/
def Session.Forbidden (limit : CallLimit) (s : Session) : Prop :=
  ∃ nr ∈ s.attempted, toInt nr ∉ limit

section Forbidden
variable (host : Host) (judger : Judger) (conf : RunConfigure)

/-- The session of a test of this request, and a child whose reports begin with its events. -/
structure ForbiddenRun (run : Ended) : Prop where
  traced : conf.trace = true
  session : ∃ s, Session.Reachable host.pagesize (judger.executeCondtion conf.executeCondtion)
    judger.getCallLimit s ∧ s.Forbidden judger.getCallLimit ∧ s.events <+: run.events true

theorem traceLoop_forbidden (pagesize : ℤ) (cond : ExecuteCondtion) (limit : CallLimit)
    (s : Session) (hs : Session.Reachable pagesize cond limit s) (hno : s.Forbidden limit)
    (rest : List Answer) :
    ∃ results, (traceLoop pagesize cond limit false (s.events.map .event ++ rest)).result =
      .ok (.kError, results) ∧ results.judgeResult = .kRE := by
  have hpoliced := session_reachable_policed pagesize cond limit hs
  obtain ⟨results, hout, hre⟩ := hpoliced.refused hno
  have hloop := hpoliced.loop rest
  simp only [Session.continuation, hout] at hloop
  exact ⟨results, hloop, hre⟩

/-- `execute` reports the forbidden call, whatever stands in the files. -/
theorem execute_forbidden (run : Ended) (h : ForbiddenRun host judger conf run)
    (child : ChildRun) (hchild : child.fate = .ended run) (rightout : FileView)
    (results : Results) :
    ∃ r, judger.execute host.pagesize conf.executeCondtion child rightout results =
      .ok (false, r) ∧ r.judgeResult = .kRE := by
  obtain ⟨htrace, s, hs, hno, rest, hrest⟩ := h
  obtain ⟨r, hloop, hre⟩ := traceLoop_forbidden _ _ _ s hs hno (rest.map .event)
  have hcond : conf.executeCondtion.trace = true := htrace
  have hjudge : Judge.run host.pagesize (judger.executeCondtion conf.executeCondtion)
      judger.getCallLimit (run.child true) = .ok (.kError, r) := by
    rw [← List.map_append, hrest] at hloop
    simpa [Judge.run, Ended.child, hcond] using hloop
  refine ⟨r, execute_error host judger conf.executeCondtion child rightout results ?_ hjudge, hre⟩
  rw [hchild, hcond]
  rfl

theorem results_forbidden (t : TestRun) (h : ForbiddenRun host judger conf t.run) :
    ¬ t.Passes host judger conf.executeCondtion ∧
      (t.results host judger conf.executeCondtion).judgeResult = .kRE := by
  obtain ⟨r, hexec, hre⟩ := execute_forbidden host judger conf t.run h
    ⟨.ended t.run, t.userout, none⟩ rfl t.rightout {}
  have hout : t.outcome host judger conf.executeCondtion = .ok (false, r) := hexec
  have heq := outcome_eq host judger conf.executeCondtion t
  rw [hout] at heq
  simp only [Except.ok.injEq, Prod.mk.injEq] at heq
  obtain ⟨hpass, hres⟩ := heq
  exact ⟨by simpa using hpass.symm, by rw [← hres]; exact hre⟩

/-- The request whose test makes the forbidden call is reported with `kRE`, and no later test
of it is run. -/
theorem processTask_forbidden {json : Json.Codec} {tools : Tools} {msg : Bytes} {w : World}
    {before : List TestRun} {t : TestRun} {after : List TestRun}
    (hparse : parseData json msg = .ok conf)
    (hjudger : constructJudger conf.codeType = some judger)
    (hbuild : Buildable host w.fs conf.runId)
    (hserved : TaskServed host tools w.fs.data conf judger (before ++ t :: after))
    (hbefore : ∀ b ∈ before, b.Passes host judger conf.executeCondtion)
    (ht : ForbiddenRun host judger conf t.run) :
    ∃ r w', processTask host json tools msg w = .ok (true, r, w') ∧ r.judgeResult = .kRE ∧
      w'.executed = w.executed ++ List.range' 0 (before.length+1) := by
  obtain ⟨hnot, hre⟩ := results_forbidden host judger conf t ht
  refine ⟨_, _, (processTask_parsed w hparse).trans (judgeTask_served w hbuild hjudger hserved),
    ?_, ?_⟩
  · simp only [finalResults_stops host judger conf before t after {} hbefore (Or.inl hnot), hre]
  · rw [cleaned_executed, tested_executed,
      testsRun_stops host judger conf before t after hbefore (Or.inl hnot)]

end Forbidden

section Ptrace

/-- The second test of a Ruby program calls `ptrace` itself, after `exec` and one `read`. -/
def ptraceSecond (num : ℕ) : TestRun where
  run :=
    { stops := if num = 0 then [] else
        [⟨SIGTRAP, 59, ⟨0, 0, 10⟩⟩, ⟨SIGTRAP, 0, ⟨0, 0, 10⟩⟩, ⟨SIGTRAP, 0, ⟨0, 0, 10⟩⟩,
          ⟨SIGTRAP, 101, ⟨0, 0, 20⟩⟩, ⟨SIGTRAP, 101, ⟨0, 0, 20⟩⟩]
      fate := .exited 0
      resource := ⟨0, 0, 30⟩ }
  userout := { data := str "1\n" }
  rightout := { data := str "1\n" }

def ptraceMoves : List Move :=
  [.execStop 59 ⟨0, 0, 10⟩, .syscall 0 ⟨0, 0, 10⟩, .sysret 0 ⟨0, 0, 10⟩, .syscall 101 ⟨0, 0, 20⟩]

def ptraceSession : Session :=
  ptraceMoves.foldl (Session.after 4096 (Judger.judgeRuby.executeCondtion rubyConf.executeCondtion)
    rubyCallLimit) {}

theorem ptraceSecond_forbidden :
    ForbiddenRun .standard .judgeRuby rubyConf (ptraceSecond 1).run := by
  have hreach := session_moves_reachable 4096
    (Judger.judgeRuby.executeCondtion rubyConf.executeCondtion) rubyCallLimit ptraceMoves {}
    Relation.ReflTransGen.refl (by decide +kernel)
  exact ⟨rfl, ptraceSession, hreach, ⟨101, by decide +kernel, by decide +kernel⟩,
    by decide +kernel⟩

end Ptrace

end OnlineJudge
