import OnlineJudge.ProcessTask

/-! A worker thread as a state machine: `processTask` cut at each of its calls, so that the
steps of several workers can come in any order. -/
namespace OnlineJudge

/-- A request that has found its judger, with the programs started for it. -/
structure Job where
  conf : RunConfigure
  judger : Judger
  tools : Tools

/-- Where a worker stands, named after what it has done; a test that is opening or running has
`rounds` more tests behind it. -/
inductive Phase
  | waiting
  | decoded (conf : RunConfigure) (tools : Tools)
  | built (job : Job)
  | stored (job : Job)
  | opening (job : Job) (rounds num : ℕ) (results : Results)
  | running (job : Job) (rounds num : ℕ) (rightout : FileView) (results : Results)
  | cleaning (runId : UInt32) (results : Results)
  | replying (ok : Bool) (results : Results)
  /-- Out of the loop of `run`. -/
  | returned
  /-- In a call that never returns. -/
  | blocked

namespace Phase

/-- The worker is between `parseData` and the end of `processTask`. -/
def inTask : Phase → Bool
  | waiting => false
  | replying _ _ => false
  | returned => false
  | blocked => false
  | _ => true

/-- The head of the loop over the tests. -/
def nextTest (job : Job) : ℕ → ℕ → Results → Phase
  | 0, _, results => cleaning job.conf.runId results
  | rounds+1, num, results => opening job rounds num results

/-- No task of this phase takes more steps until the worker waits again. -/
def stepsLeft : Phase → ℕ
  | waiting => 0
  | decoded conf _ => 2*conf.runTimes.toNat+5
  | built job => 2*job.conf.runTimes.toNat+4
  | stored job => 2*job.conf.runTimes.toNat+3
  | opening _ rounds _ _ => 2*rounds+4
  | running _ rounds _ _ _ => 2*rounds+3
  | cleaning _ _ => 2
  | replying _ _ => 1
  | returned => 0
  | blocked => 0

@[simp] theorem stepsLeft_nextTest (job : Job) (rounds num : ℕ) (results : Results) :
    (nextTest job rounds num results).stepsLeft = 2*rounds+2 := by
  cases rounds with
  | zero => rfl
  | succ rounds =>
    simp only [nextTest, stepsLeft]
    omega

end Phase

section Worker
variable (host : Host)

/-- `Judger::compile` of a job on what the work directory holds. -/
def Job.compile (job : Job) (work : Option Node) : Call (Bool × Results × Option Node) :=
  job.judger.compile (workDirPath host job.conf.runId) job.tools {} work

/-- The next call of `processTask`. -/
def advance : Phase → World → Call (Phase × World)
  | .decoded conf tools, w => do
    let (built, fs) ← buildEnv host w.fs conf.runId
    let w := { w with fs }
    if !built then return (.replying false {}, w)
    match constructJudger conf.codeType with
    | none => return (.replying false {}, w)
    | some judger => return (.built ⟨conf, judger, tools⟩, w)
  | .built job, w =>
    .ok (.stored job, w.setWork job.conf.runId
      (job.judger.storeSourceFile job.conf.sourceCode (w.fs.work job.conf.runId)))
  | .stored job, w => do
    let (compiled, results, work) ← job.compile host (w.fs.work job.conf.runId)
    let w := w.setWork job.conf.runId work
    if compiled then return (.nextTest job job.conf.runTimes.toNat 0 results, w)
    else return (.cleaning job.conf.runId results, w)
  | .opening job rounds num results, w => do
    let (_, rightout, w) ← getFileno job.conf num w
    return (.running job rounds num rightout results, w)
  | .running job rounds num rightout results, w => do
    let (again, results, w) ←
      executeTest host job.judger job.conf job.tools num rightout results w
    if again then return (.nextTest job rounds (num+1) results, w.closeAll)
    else return (.cleaning job.conf.runId results, w)
  | .cleaning runId results, w => do
    let w ← cleanEnv host runId w
    return (.replying true { results with runId }, w)
  | p, w => .ok (p, w)

def rest : Phase → World → Call (Bool × Results × World)
  | .decoded conf tools, w => judgeTask host conf tools w
  | .built job, w =>
    compileAndRun host job.judger job.conf job.tools (w.setWork job.conf.runId
      (job.judger.storeSourceFile job.conf.sourceCode (w.fs.work job.conf.runId)))
  | .stored job, w => compileAndRun host job.judger job.conf job.tools w
  | .opening job rounds num results, w => do
    let (results, w) ← testLoop host job.judger job.conf job.tools (rounds+1) num results w
    finishTask host job.conf.runId results w
  | .running job rounds num rightout results, w => do
    let (again, results, w) ←
      executeTest host job.judger job.conf job.tools num rightout results w
    if again then
      let (results, w) ←
        testLoop host job.judger job.conf job.tools rounds (num+1) results w.closeAll
      finishTask host job.conf.runId results w
    else finishTask host job.conf.runId results w
  | .cleaning runId results, w => finishTask host runId results w
  | .replying ok results, w => .ok (ok, results, w)
  | _, _ => .error .blocked

theorem rest_nextTest (job : Job) (rounds num : ℕ) (results : Results) (w : World) :
    rest host (.nextTest job rounds num results) w =
      testLoop host job.judger job.conf job.tools rounds num results w >>=
        fun out => finishTask host job.conf.runId out.1 out.2 := by
  cases rounds <;> rfl

/-- The calls of the machine, one after the other, are `processTask`. -/
theorem rest_eq_advance {p : Phase} (hp : p.inTask = true) (w : World) :
    rest host p w = advance host p w >>= fun out => rest host out.1 out.2 := by
  cases p with
  | waiting | replying | returned | blocked => simp [Phase.inTask] at hp
  | decoded conf tools =>
    simp only [rest, judgeTask, advance]
    cases buildEnv host w.fs conf.runId with
    | error e => rfl
    | ok out =>
      obtain ⟨built, fs⟩ := out
      cases built with
      | false => rfl
      | true => cases constructJudger conf.codeType <;> rfl
  | built job => rfl
  | stored job =>
    simp only [rest, compileAndRun, advance, Job.compile]
    cases job.judger.compile (workDirPath host job.conf.runId) job.tools {}
        (w.fs.work job.conf.runId) with
    | error e => rfl
    | ok out =>
      obtain ⟨compiled, results, work⟩ := out
      cases compiled with
      | false => rfl
      -- the first round of the loop over the tests
      | true => exact (rest_nextTest host job _ _ _ _).symm
  | opening job rounds num results =>
    simp only [rest, testLoop, advance]
    cases getFileno job.conf num w with
    | error e => rfl
    | ok out =>
      obtain ⟨io, rightout, w'⟩ := out
      simp only [call_ok_bind, call_pure]
      cases executeTest host job.judger job.conf job.tools num rightout results w' with
      | error e => rfl
      | ok out =>
        obtain ⟨again, results, w''⟩ := out
        cases again <;> rfl
  | running job rounds num rightout results =>
    simp only [rest, advance]
    cases executeTest host job.judger job.conf job.tools num rightout results w with
    | error e => rfl
    | ok out =>
      obtain ⟨again, results, w'⟩ := out
      cases again with
      | false => rfl
      -- and the next one, or `cleanEnv` where the round was the last
      | true => exact (rest_nextTest host job _ _ _ _).symm
  | cleaning runId results =>
    simp only [rest, finishTask, advance]
    cases cleanEnv host runId w <;> rfl

inductive Advances : Phase → World → Phase → World → Prop
  | refused (conf : RunConfigure) (tools : Tools) (w : World) (h : Unbuildable w.fs) :
      Advances (.decoded conf tools) w (.replying false {}) w
  | unsupported (conf : RunConfigure) (tools : Tools) (w : World)
      (hbuild : Buildable host w.fs conf.runId) (h : constructJudger conf.codeType = none) :
      Advances (.decoded conf tools) w (.replying false {}) (w.built conf.runId)
  | built (conf : RunConfigure) (judger : Judger) (tools : Tools) (w : World)
      (hbuild : Buildable host w.fs conf.runId) (h : constructJudger conf.codeType = some judger) :
      Advances (.decoded conf tools) w (.built ⟨conf, judger, tools⟩) (w.built conf.runId)
  | stored (job : Job) (w : World) :
      Advances (.built job) w (.stored job) (w.setWork job.conf.runId
        (job.judger.storeSourceFile job.conf.sourceCode (w.fs.work job.conf.runId)))
  | compiled (job : Job) (w : World) (left : Option Node)
      (hok : job.compile host (w.fs.work job.conf.runId) = .ok (true, {}, left)) :
      Advances (.stored job) w (.nextTest job job.conf.runTimes.toNat 0 {})
        (w.setWork job.conf.runId left)
  | rejected (job : Job) (w : World) (results : Results) (left : Option Node)
      (hfail : job.compile host (w.fs.work job.conf.runId) = .ok (false, results, left)) :
      Advances (.stored job) w (.cleaning job.conf.runId results) (w.setWork job.conf.runId left)
  | opened (job : Job) (rounds num : ℕ) (rightout : FileView) (results : Results) (w : World)
      (hopen : FilesOpen w.fs.data job.conf num (w.fs.work job.conf.runId) rightout) :
      Advances (.opening job rounds num results) w (.running job rounds num rightout results)
        (w.withTestFiles job.conf num)
  | passed (job : Job) (rounds num : ℕ) (t : TestRun) (results : Results) (w : World)
      (hrun : (childRun host job.judger job.conf job.tools num (w.fs.work job.conf.runId)).Is t)
      (hpass : t.Passes host job.judger job.conf.executeCondtion) :
      Advances (.running job rounds num t.rightout results) w
        (.nextTest job rounds (num+1) (t.results host job.judger job.conf.executeCondtion))
        (w.afterRun host job.judger job.conf job.tools num).closeAll
  | failed (job : Job) (rounds num : ℕ) (t : TestRun) (results : Results) (w : World)
      (hrun : (childRun host job.judger job.conf job.tools num (w.fs.work job.conf.runId)).Is t)
      (hfail : ¬ t.Passes host job.judger job.conf.executeCondtion) :
      Advances (.running job rounds num t.rightout results) w
        (.cleaning job.conf.runId (t.results host job.judger job.conf.executeCondtion))
        (w.afterRun host job.judger job.conf job.tools num)
  | cleaned (runId : UInt32) (results : Results) (w : World)
      (hclean : Cleanable host runId (w.fs.work runId)) :
      Advances (.cleaning runId results) w (.replying true { results with runId })
        (w.cleaned host runId)

variable {host}

theorem advances_data {p p' : Phase} {w w' : World} (h : Advances host p w p' w') :
    w'.fs.data = w.fs.data := by
  cases h with
  | refused => rfl
  | unsupported | built =>
    simp only [World.built, builtFs, FileSystem.setWork_data]
    split_ifs <;> rfl
  | passed => simp [World.afterRun]
  | stored | compiled | rejected | opened | failed | cleaned => rfl

theorem advances_of_advance {p p' : Phase} {w w' : World} (hp : p.inTask = true)
    (h : advance host p w = .ok (p', w')) : Advances host p w p' w' := by
  cases p with
  | waiting | replying | returned | blocked => simp [Phase.inTask] at hp
  | decoded conf tools =>
    cases hbuilt : buildEnv host w.fs conf.runId with
    | error e => simp [advance, hbuilt] at h
    | ok out =>
      -- `buildEnv` answers `false` where the directory cannot be made
      rcases buildEnv_returns hbuilt with hun | hbuild
      · simp only [advance, buildEnv_unbuildable conf.runId hun, call_ok_bind, call_pure,
          Bool.not_false, if_true, Except.ok.injEq, Prod.mk.injEq] at h
        obtain ⟨rfl, rfl⟩ := h
        exact .refused conf tools w hun
      · simp only [advance, buildEnv_buildable hbuild, call_ok_bind, call_pure, Bool.not_true,
          Bool.false_eq_true, if_false] at h
        cases hjudger : constructJudger conf.codeType with
        | none =>
          simp only [hjudger, Except.ok.injEq, Prod.mk.injEq] at h
          obtain ⟨rfl, rfl⟩ := h
          exact .unsupported conf tools w hbuild hjudger
        | some judger =>
          simp only [hjudger, Except.ok.injEq, Prod.mk.injEq] at h
          obtain ⟨rfl, rfl⟩ := h
          exact .built conf judger tools w hbuild hjudger
  | built job =>
    simp only [advance, Except.ok.injEq, Prod.mk.injEq] at h
    obtain ⟨rfl, rfl⟩ := h
    exact .stored job w
  | stored job =>
    cases hcompile : job.compile host (w.fs.work job.conf.runId) with
    | error e => simp [advance, hcompile] at h
    | ok out =>
      obtain ⟨compiled, results, left⟩ := out
      obtain ⟨_, hok⟩ := compile_returns hcompile
      simp only [advance, hcompile, call_ok_bind, call_pure] at h
      -- `compile` either passes, and the results are still to come, or says the verdict itself
      rcases hok with ⟨rfl, rfl⟩ | ⟨rfl, _⟩
      · simp only [if_true, Except.ok.injEq, Prod.mk.injEq] at h
        obtain ⟨rfl, rfl⟩ := h
        exact .compiled job w left hcompile
      · simp only [Bool.false_eq_true, if_false, Except.ok.injEq, Prod.mk.injEq] at h
        obtain ⟨rfl, rfl⟩ := h
        exact .rejected job w results left hcompile
  | opening job rounds num results =>
    cases hget : getFileno job.conf num w with
    | error e => simp [advance, hget] at h
    | ok out =>
      simp only [advance, hget, call_ok_bind, call_pure, Except.ok.injEq, Prod.mk.injEq] at h
      obtain ⟨rfl, rfl⟩ := h
      rw [getFileno_result hget]
      exact .opened job rounds num _ results w (getFileno_returns hget)
  | running job rounds num rightout results =>
    cases hexec : executeTest host job.judger job.conf job.tools num rightout results w with
    | error e => simp [advance, hexec] at h
    | ok out =>
      -- a call of `execute` that returns is the run of some submission to its end
      obtain ⟨t, rfl, hrun⟩ := executeTest_returns host job.judger job.conf job.tools hexec
      simp only [advance, executeTest_is host job.judger job.conf job.tools num t results w hrun,
        call_ok_bind, call_pure, decide_eq_true_eq] at h
      split_ifs at h with hpass
      · obtain ⟨rfl, rfl⟩ := Prod.mk.inj (Except.ok.inj h)
        exact .passed job rounds num t results w hrun hpass
      · obtain ⟨rfl, rfl⟩ := Prod.mk.inj (Except.ok.inj h)
        exact .failed job rounds num t results w hrun hpass
  | cleaning runId results =>
    cases hclean : cleanEnv host runId w with
    | error e => simp [advance, hclean] at h
    | ok left =>
      have hcleanable := cleanEnv_returns hclean
      simp only [advance, cleanEnv_cleanable hcleanable, call_ok_bind, call_pure, Except.ok.injEq,
        Prod.mk.injEq] at h
      obtain ⟨rfl, rfl⟩ := h
      exact .cleaned runId results w hcleanable

theorem advance_of_advances {p p' : Phase} {w w' : World} (h : Advances host p w p' w') :
    advance host p w = .ok (p', w') := by
  cases h with
  | refused conf tools w hun =>
    simp [advance, buildEnv_unbuildable conf.runId hun]
  | unsupported conf tools w hbuild hnone =>
    simp [advance, buildEnv_buildable hbuild, hnone, World.built]
  | built conf judger tools w hbuild hjudger =>
    simp [advance, buildEnv_buildable hbuild, hjudger, World.built]
  | stored job w => rfl
  | compiled job w left hok => simp [advance, hok]
  | rejected job w results left hfail => simp [advance, hfail]
  | opened job rounds num rightout results w hopen =>
    simp [advance, getFileno_open job.conf num w rightout hopen]
  | passed job rounds num t results w hrun hpass =>
    have hexec := executeTest_is host job.judger job.conf job.tools num t results w hrun
    simp [advance, hexec, hpass]
  | failed job rounds num t results w hrun hfail =>
    have hexec := executeTest_is host job.judger job.conf job.tools num t results w hrun
    simp [advance, hexec, hfail]
  | cleaned runId results w hclean =>
    simp [advance, cleanEnv_cleanable hclean]

theorem advance_stepsLeft {p p' : Phase} {w w' : World} (h : Advances host p w p' w') :
    p'.stepsLeft < p.stepsLeft := by
  cases h with
  | compiled | passed =>
    rw [Phase.stepsLeft_nextTest]
    simp only [Phase.stepsLeft]
    omega
  | refused | unsupported | built | stored | rejected | opened | failed | cleaned =>
    simp only [Phase.stepsLeft]
    omega

variable (host)

/-- No system call of the next step fails, a child that is run comes to its program and to its
end, and what is read or formatted on the way fits. -/
def CallsSucceed : Phase → World → Prop
  | .decoded conf _, w => Buildable host w.fs conf.runId
  | .stored job, w => job.judger.MessageFits job.tools (workDirPath host job.conf.runId)
      (w.fs.work job.conf.runId)
  | .opening job _ num _, w =>
    ∃ rightout, FilesOpen w.fs.data job.conf num (w.fs.work job.conf.runId) rightout
  | .running job _ num _ _, w =>
    ∃ run, (childRun host job.judger job.conf job.tools num (w.fs.work job.conf.runId)).fate =
      .ended run
  | .cleaning runId _, w => Cleanable host runId (w.fs.work runId)
  | _, _ => True

variable {host}

theorem advance_returns {p : Phase} {w : World} (h : CallsSucceed host p w) :
    ∃ out, advance host p w = .ok out := by
  cases p with
  | decoded conf tools =>
    cases hjudger : constructJudger conf.codeType with
    | none => exact ⟨_, advance_of_advances (.unsupported conf tools w h hjudger)⟩
    | some judger => exact ⟨_, advance_of_advances (.built conf judger tools w h hjudger)⟩
  | stored job =>
    obtain ⟨⟨compiled, results, left⟩, hcompile⟩ := (compile_returns_iff {}).mpr h
    rcases (compile_returns hcompile).2 with ⟨rfl, rfl⟩ | ⟨rfl, _⟩
    · exact ⟨_, advance_of_advances (.compiled job w left hcompile)⟩
    · exact ⟨_, advance_of_advances (.rejected job w results left hcompile)⟩
  | opening job rounds num results =>
    obtain ⟨rightout, hopen⟩ := h
    exact ⟨_, advance_of_advances (.opened job rounds num rightout results w hopen)⟩
  | running job rounds num rightout results =>
    -- the child came to its program, and its run is what `execute` classifies
    obtain ⟨run, hfate⟩ := h
    let t : TestRun := ⟨run, (childRun host job.judger job.conf job.tools num
      (w.fs.work job.conf.runId)).output, rightout⟩
    have hrun : (childRun host job.judger job.conf job.tools num
        (w.fs.work job.conf.runId)).Is t := ⟨hfate, rfl⟩
    by_cases hpass : t.Passes host job.judger job.conf.executeCondtion
    · exact ⟨_, advance_of_advances (.passed job rounds num t results w hrun hpass)⟩
    · exact ⟨_, advance_of_advances (.failed job rounds num t results w hrun hpass)⟩
  | cleaning runId results => exact ⟨_, advance_of_advances (.cleaned runId results w h)⟩
  | _ => exact ⟨_, rfl⟩

/-- A call that does not refuse the request has found what it needs. -/
theorem callsSucceed_of_advances {p p' : Phase} {w w' : World} (h : Advances host p w p' w')
    (hserves : ∀ results, p' ≠ .replying false results) : CallsSucceed host p w := by
  cases h with
  | refused | unsupported => exact absurd rfl (hserves {})
  | built conf judger tools w hbuild _ => exact hbuild
  | stored job w => trivial
  | compiled job w left hok => exact (compile_returns_iff {}).mp ⟨_, hok⟩
  | rejected job w results left hfail => exact (compile_returns_iff {}).mp ⟨_, hfail⟩
  | opened job rounds num rightout results w hopen => exact ⟨rightout, hopen⟩
  | passed job rounds num t results w hrun _ => exact ⟨t.run, hrun.1⟩
  | failed job rounds num t results w hrun _ => exact ⟨t.run, hrun.1⟩
  | cleaned runId results w hclean => exact hclean

end Worker

end OnlineJudge
