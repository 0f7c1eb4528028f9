import OnlineJudge.Verdict

/-! The loop of `processTask` stops at the first test whose `execute` returns false, and hands on
what that test has set. -/
namespace OnlineJudge

section Stop
variable (host : Host) (judger : Judger) (conf : RunConfigure)

/-- `execute` returns `again` on the test. -/
def TestRun.Executes (t : TestRun) (again : Bool) : Prop :=
  ∃ r, t.outcome host judger conf.executeCondtion = .ok (again, r)

theorem executes_iff (t : TestRun) (again : Bool) :
    t.Executes host judger conf again ↔
      again = decide (t.Passes host judger conf.executeCondtion) := by
  rw [TestRun.Executes, outcome_eq]
  simp [eq_comm]

theorem executes_true_iff (t : TestRun) :
    t.Executes host judger conf true ↔ t.Passes host judger conf.executeCondtion := by
  simp [executes_iff]

theorem executes_false_iff (t : TestRun) :
    t.Executes host judger conf false ↔ ¬ t.Passes host judger conf.executeCondtion := by
  simp [executes_iff]

/-- The tests up to `t` are run, each once and in order, and `t`, the first that stops the loop
or else the last one, decides what `wrapData` gets. -/
structure StopsAt (w : World) (task : Call (Bool × Results × World)) (before : List TestRun)
    (t : TestRun) (after : List TestRun) (looped : World) : Prop where
  passed : ∀ b ∈ before, b.Executes host judger conf true
  stops : t.Executes host judger conf false ∨ (t.Executes host judger conf true ∧ after = [])
  executed : looped.executed = w.executed ++ List.range' 0 (before.length+1)
  finished : task = finishTask host conf.runId (t.results host judger conf.executeCondtion) looped
  results : ∀ ok results w', task = .ok (ok, results, w') → ok = true ∧
    results = { t.results host judger conf.executeCondtion with runId := conf.runId }
  verdict : t.Executes host judger conf false →
    (t.results host judger conf.executeCondtion).judgeResult ≠ .kAC
  checked : (∀ u ∈ before ++ t :: after, u.Executes host judger conf true) →
    ∀ u ∈ before ++ t :: after, u.OutputOk host

/-- The tests as the loop takes them: some that pass, and one that does not or is the last. -/
theorem tests_split (runs : List TestRun) (hne : runs ≠ []) :
    ∃ before t after, runs = before ++ t :: after ∧
      (∀ b ∈ before, b.Passes host judger conf.executeCondtion) ∧
      (¬ t.Passes host judger conf.executeCondtion ∨
        (t.Passes host judger conf.executeCondtion ∧ after = [])) := by
  induction runs with
  | nil => exact absurd rfl hne
  | cons t rest ih =>
    by_cases hpass : t.Passes host judger conf.executeCondtion
    -- the last test decides even when it passes
    · by_cases hrest : rest = []
      · exact ⟨[], t, rest, rfl, by simp, Or.inr ⟨hpass, hrest⟩⟩
      · obtain ⟨before, u, after, rfl, hbefore, hu⟩ := ih hrest
        refine ⟨t :: before, u, after, rfl, ?_, hu⟩
        intro b hb
        rcases List.mem_cons.mp hb with rfl | hb
        · exact hpass
        · exact hbefore b hb
    · exact ⟨[], t, rest, rfl, by simp, Or.inl hpass⟩

end Stop

section Task
variable {host : Host} {json : Json.Codec} {tools : Tools} {msg : Bytes} {w : World}
  {conf : RunConfigure} {judger : Judger}

/-- A request that compiles goes through the loop over its tests to `finishTask`. -/
theorem processTask_looped {runs : List TestRun} (hparse : parseData json msg = .ok conf)
    (hjudger : constructJudger conf.codeType = some judger)
    (hbuild : Buildable host w.fs conf.runId)
    (hcompiled : Compiles host tools judger conf)
    (hlen : runs.length = conf.runTimes.toNat)
    (htests : TestsServed host judger conf tools w.fs.data runs 0
      (compiledWork host tools judger conf)) :
    processTask host json tools msg w =
      finishTask host conf.runId (finalResults host judger conf runs {})
        (w.tested host tools judger conf runs) := by
  have hloop := testLoop_served host judger conf tools runs 0 {} (w.compiled host tools judger conf)
    (by simpa using htests)
  rw [hlen] at hloop
  rw [processTask_parsed w hparse, judgeTask_supported w hbuild hjudger,
    compileAndRun_compiles w hcompiled, hloop]
  rfl

end Task

/-- Early stop is final: a supported request that compiles and finds its test files runs its
tests up to the first that stops the loop, and reports that one. -/
theorem processTask_stopsAt (host : Host) (json : Json.Codec) (tools : Tools) (msg : Bytes)
    (w : World) (conf : RunConfigure) (judger : Judger) (runs : List TestRun)
    (hparse : parseData json msg = .ok conf)
    (hjudger : constructJudger conf.codeType = some judger)
    (hrounds : 1 ≤ conf.runTimes.toNat ∧ conf.runTimes.toNat < 2^31)
    (hbuild : Buildable host w.fs conf.runId)
    (hcompiled : Compiles host tools judger conf)
    (hlen : runs.length = conf.runTimes.toNat)
    (htests : TestsServed host judger conf tools w.fs.data runs 0
      (compiledWork host tools judger conf)) :
    ∃ before t after looped, runs = before ++ t :: after ∧
      StopsAt host judger conf w (processTask host json tools msg w) before t after looped := by
  have hne : runs ≠ [] := by
    intro hnil
    rw [hnil, List.length_nil] at hlen
    omega
  have htask := processTask_looped hparse hjudger hbuild hcompiled hlen htests
  obtain ⟨before, t, after, rfl, hbefore, ht⟩ := tests_split host judger conf runs hne
  have hend : ¬ t.Passes host judger conf.executeCondtion ∨ after = [] := ht.imp_right And.right
  -- the loop of the source goes on while `execute` returns true, and rounds are left
  rw [finalResults_stops host judger conf before t after {} hbefore hend] at htask
  refine ⟨before, t, after, _, rfl, ?_, ?_, ?_, htask, ?_, ?_, ?_⟩
  · intro b hb
    exact (executes_true_iff host judger conf b).mpr (hbefore b hb)
  · rwa [executes_false_iff, executes_true_iff]
  · rw [tested_executed, testsRun_stops host judger conf before t after hbefore hend]
  · intro ok results w' hout
    rw [htask] at hout
    exact finishTask_results hout
  · intro hfalse
    obtain ⟨r, hr, hne⟩ := outcome_fails host judger conf.executeCondtion t
      ((executes_false_iff host judger conf t).mp hfalse)
    simpa [TestRun.results, hr] using hne
  · intro hall u hu
    exact ((executes_true_iff host judger conf u).mp (hall u hu)).2

theorem processTask_stopsAt_slowFirst :
    ∃ before t after looped, [slowFirst 0, slowFirst 1] = before ++ t :: after ∧
      StopsAt .standard .judgeRuby rubyConf slowFirstWorld
        (processTask .standard rubyCodec (.ofRuns slowFirst) rubyConf.message slowFirstWorld)
        before t after looped :=
  processTask_stopsAt _ _ _ _ _ _ _ _ parseData_ruby rfl (by decide) (Or.inr ⟨rfl, Or.inl rfl⟩)
    slowFirst_served.compiled slowFirst_served.length slowFirst_served.tests

end OnlineJudge
