import OnlineJudge.JudgeWorker

/-! The loop over the tests in `processTask`: when it returns, with which results, and what
it leaves behind. -/
namespace OnlineJudge

/-- The work directory once the output file of test `num` is open. -/
def withOutput (work : Option Node) (num : ℕ) : Option Node :=
  match createFile work (userOutputName num) with
  | .ok work' => work'
  | .error _ => work

def World.withTestFiles (w : World) (conf : RunConfigure) (num : ℕ) : World :=
  { w with
    fs := w.fs.setWork conf.runId (withOutput (w.fs.work conf.runId) num)
    nextFd := w.nextFd+3
    fdLog := w.fdLog ++ [.opened w.nextFd, .opened (w.nextFd+1), .opened (w.nextFd+2)]
    fileManager :=
      { files := w.fileManager.files ++ [⟨.rightInput conf.programId num, w.nextFd⟩,
          ⟨.rightOutput conf.programId num, w.nextFd+1⟩, ⟨.userOutput conf.runId num, w.nextFd+2⟩]
        isClosed := false } }

/-- The three files of test `num` can be opened, with these bytes expected. -/
structure FilesOpen (data : TestData) (conf : RunConfigure) (num : ℕ) (work : Option Node)
    (rightout : FileView) : Prop where
  rightInput : ∃ input, data.rightInput conf.programId num = some input
  rightOutput : data.rightOutput conf.programId num = some rightout
  userOutput : ∃ work', createFile work (userOutputName num) = .ok work'

theorem createFile_withOutput {work work' : Option Node} {num : ℕ}
    (h : createFile work (userOutputName num) = .ok work') : withOutput work num = work' := by
  simp [withOutput, h]

theorem getFileno_open (conf : RunConfigure) (num : ℕ) (w : World) (rightout : FileView)
    (h : FilesOpen w.fs.data conf num (w.fs.work conf.runId) rightout) :
    getFileno conf num w = .ok (⟨w.nextFd, w.nextFd+1, w.nextFd+2⟩, rightout,
      w.withTestFiles conf num) := by
  obtain ⟨input, hin⟩ := h.rightInput
  obtain ⟨work', hcreate⟩ := h.userOutput
  simp only [getFileno, hin, h.rightOutput, World.openFile, hcreate, call_ok_bind, call_pure,
    World.withTestFiles, createFile_withOutput hcreate, World.setWork, World.pushBack,
    FileManger.pushBack, List.append_assoc, List.cons_append, List.nil_append]

/-- A data file that is missing, or an output file that cannot be made, ends the process. -/
theorem getFileno_returns {conf : RunConfigure} {num : ℕ} {w : World}
    {out : IOFileno × FileView × World} (h : getFileno conf num w = .ok out) :
    FilesOpen w.fs.data conf num (w.fs.work conf.runId) out.2.1 := by
  unfold getFileno at h
  cases hin : w.fs.data.rightInput conf.programId num with
  | none => simp [hin, printError] at h
  | some input =>
    cases hout : w.fs.data.rightOutput conf.programId num with
    | none => simp [hin, World.openFile, hout, printError] at h
    | some rightout =>
      cases hcreate : createFile (w.fs.work conf.runId) (userOutputName num) with
      | error e => simp [hin, World.openFile, hout, hcreate] at h
      | ok work' =>
        have hopen : FilesOpen w.fs.data conf num (w.fs.work conf.runId) rightout :=
          ⟨⟨input, hin⟩, hout, ⟨work', hcreate⟩⟩
        have hsame := getFileno_open conf num w rightout hopen
        unfold getFileno at hsame
        rw [h] at hsame
        rw [Except.ok.inj hsame]
        exact hopen

theorem getFileno_result {conf : RunConfigure} {num : ℕ} {w : World}
    {out : IOFileno × FileView × World} (h : getFileno conf num w = .ok out) :
    out.2.2 = w.withTestFiles conf num := by
  have hopen := getFileno_open conf num w out.2.1 (getFileno_returns h)
  rw [h, Except.ok.injEq] at hopen
  rw [hopen]

section Loop
variable (host : Host) (judger : Judger) (conf : RunConfigure) (tools : Tools)

def workAfterTest (num : ℕ) (work : Option Node) : Option Node :=
  (childRun host judger conf tools num (withOutput work num)).work

/-- These are the outcomes of the tests from `num` on, as far as the loop comes: each test
that is reached finds its files, and its child ends as the outcome tells. -/
def TestsServed (data : TestData) : List TestRun → ℕ → Option Node → Prop
  | [], _, _ => True
  | t :: rest, num, work =>
    FilesOpen data conf num work t.rightout ∧
    (childRun host judger conf tools num (withOutput work num)).Is t ∧
    (t.Passes host judger conf.executeCondtion →
      TestsServed data rest (num+1) (workAfterTest host judger conf tools num work))

def finalResults : List TestRun → Results → Results
  | [], results => results
  | t :: rest, _ =>
    let results := t.results host judger conf.executeCondtion
    if t.Passes host judger conf.executeCondtion then finalResults rest results else results

def testsRun : List TestRun → ℕ
  | [] => 0
  | t :: rest => if t.Passes host judger conf.executeCondtion then testsRun rest+1 else 1

def workAfter : List TestRun → ℕ → Option Node → Option Node
  | [], _, work => work
  | t :: rest, num, work =>
    let left := workAfterTest host judger conf tools num work
    if t.Passes host judger conf.executeCondtion then workAfter rest (num+1) left else left

/-- The world when `execute` has run test `num`. -/
def World.afterRun (w : World) (num : ℕ) : World :=
  { w.setWork conf.runId (childRun host judger conf tools num (w.fs.work conf.runId)).work with
    executed := w.executed ++ [num] }

def World.afterTest (w : World) (num : ℕ) : World :=
  (w.withTestFiles conf num).afterRun host judger conf tools num

/-- The world when the loop returns. Only a test that passes closes its files. -/
def worldAfter : List TestRun → ℕ → World → World
  | [], _, w => w
  | t :: rest, num, w =>
    let w := w.afterTest host judger conf tools num
    if t.Passes host judger conf.executeCondtion then worldAfter rest (num+1) w.closeAll else w

@[simp] theorem withTestFiles_work (num : ℕ) (w : World) :
    (w.withTestFiles conf num).fs.work conf.runId = withOutput (w.fs.work conf.runId) num := by
  simp [World.withTestFiles]

theorem executeTest_is (num : ℕ) (t : TestRun) (results : Results) (w : World)
    (hrun : (childRun host judger conf tools num (w.fs.work conf.runId)).Is t) :
    executeTest host judger conf tools num t.rightout results w =
      .ok (decide (t.Passes host judger conf.executeCondtion),
        t.results host judger conf.executeCondtion, w.afterRun host judger conf tools num) := by
  simp only [executeTest, execute_eq_outcome host judger _ t _ hrun results, outcome_eq,
    call_ok_bind, call_pure, World.afterRun]

theorem executeTest_returns {num : ℕ} {rightout : FileView} {results : Results} {w : World}
    {out : Bool × Results × World}
    (h : executeTest host judger conf tools num rightout results w = .ok out) :
    ∃ t : TestRun, t.rightout = rightout ∧
      (childRun host judger conf tools num (w.fs.work conf.runId)).Is t := by
  simp only [executeTest, call_bind_ok_iff] at h
  obtain ⟨judged, hexec, _⟩ := h
  obtain ⟨run, hfate⟩ := execute_returns host judger _ _ _ _ hexec
  exact ⟨⟨run, _, rightout⟩, rfl, hfate, rfl⟩

@[simp] theorem closeAll_fs (w : World) : w.closeAll.fs = w.fs := by
  unfold World.closeAll
  split_ifs <;> rfl

@[simp] theorem closeAll_executed (w : World) : w.closeAll.executed = w.executed := by
  unfold World.closeAll
  split_ifs <;> rfl

@[simp] theorem afterTest_fs (w : World) (num : ℕ) :
    (w.afterTest host judger conf tools num).fs = w.fs.setWork conf.runId
      (workAfterTest host judger conf tools num (w.fs.work conf.runId)) := by
  simp [World.afterTest, World.afterRun, World.withTestFiles, workAfterTest]

@[simp] theorem afterTest_executed (w : World) (num : ℕ) :
    (w.afterTest host judger conf tools num).executed = w.executed ++ [num] := rfl

/-- The loop on tests that are served: it runs them up to the first that does not pass. -/
theorem testLoop_served (runs : List TestRun) (num : ℕ) (results : Results) (w : World)
    (h : TestsServed host judger conf tools w.fs.data runs num (w.fs.work conf.runId)) :
    testLoop host judger conf tools runs.length num results w =
      .ok (finalResults host judger conf runs results,
        worldAfter host judger conf tools runs num w) := by
  -- each test hands its directory and its results to the next one
  induction runs generalizing num results w with
  | nil => rfl
  | cons t rest ih =>
    obtain ⟨hopen, hrun, hrest⟩ := h
    have hexec := executeTest_is host judger conf tools num t results
      (w.withTestFiles conf num) (by simpa using hrun)
    simp only [List.length_cons, testLoop, getFileno_open conf num w t.rightout hopen,
      call_ok_bind, hexec]
    by_cases hpass : t.Passes host judger conf.executeCondtion
    · simp only [hpass, decide_true, if_true, finalResults, worldAfter]
      apply ih (num+1)
      rw [closeAll_fs, ← World.afterTest, afterTest_fs, FileSystem.setWork_data,
        FileSystem.setWork_work_self]
      exact hrest hpass
    · simp [hpass, finalResults, worldAfter, World.afterTest]

theorem testLoop_returns (rounds num : ℕ) (results : Results) (w : World)
    {out : Results × World} (h : testLoop host judger conf tools rounds num results w = .ok out) :
    ∃ runs : List TestRun, runs.length = rounds ∧
      TestsServed host judger conf tools w.fs.data runs num (w.fs.work conf.runId) := by
  -- by induction on the rounds left, as `processTask` counts them
  induction rounds generalizing num results w with
  | zero => exact ⟨[], rfl, trivial⟩
  | succ rounds ih =>
    simp only [testLoop, call_bind_ok_iff] at h
    obtain ⟨⟨io, rightout, w'⟩, hget, ⟨again, results', after⟩, hexec, h⟩ := h
    have hopen := getFileno_returns hget
    obtain rfl : w' = w.withTestFiles conf num := getFileno_result hget
    obtain ⟨t, rfl, hrun⟩ := executeTest_returns host judger conf tools hexec
    rw [executeTest_is host judger conf tools num t results _ hrun, Except.ok.injEq,
      Prod.mk.injEq, Prod.mk.injEq] at hexec
    obtain ⟨rfl, rfl, rfl⟩ := hexec
    rw [withTestFiles_work] at hrun
    by_cases hpass : t.Passes host judger conf.executeCondtion
    · simp only [hpass, decide_true, if_true] at h
      obtain ⟨runs, hlen, hserved⟩ := ih (num+1) _ _ h
      refine ⟨t :: runs, by simp [hlen], hopen, hrun, fun _ => ?_⟩
      rwa [closeAll_fs, ← World.afterTest, afterTest_fs, FileSystem.setWork_data,
        FileSystem.setWork_work_self] at hserved
    · -- the tests behind one that fails are never reached
      exact ⟨t :: List.replicate rounds t, by simp, hopen, hrun, fun hp => absurd hp hpass⟩

theorem worldAfter_fs (runs : List TestRun) (num : ℕ) (w : World) :
    (worldAfter host judger conf tools runs num w).fs = w.fs.setWork conf.runId
      (workAfter host judger conf tools runs num (w.fs.work conf.runId)) := by
  induction runs generalizing num w with
  | nil => simp [worldAfter, workAfter, FileSystem.setWork]
  | cons t rest ih =>
    by_cases hpass : t.Passes host judger conf.executeCondtion <;>
      simp [worldAfter, workAfter, hpass, ih]

theorem worldAfter_executed (runs : List TestRun) (num : ℕ) (w : World) :
    (worldAfter host judger conf tools runs num w).executed =
      w.executed ++ List.range' num (testsRun host judger conf runs) := by
  induction runs generalizing num w with
  | nil => simp [worldAfter, testsRun]
  | cons t rest ih =>
    by_cases hpass : t.Passes host judger conf.executeCondtion
    · simp [worldAfter, testsRun, hpass, ih, List.range'_succ]
    · simp [worldAfter, testsRun, hpass]

/-- The first test that does not pass decides the results, or else the last one. -/
theorem finalResults_stops (before : List TestRun) (t : TestRun) (after : List TestRun)
    (results : Results) (hbefore : ∀ b ∈ before, b.Passes host judger conf.executeCondtion)
    (hend : ¬ t.Passes host judger conf.executeCondtion ∨ after = []) :
    finalResults host judger conf (before ++ t :: after) results =
      t.results host judger conf.executeCondtion := by
  induction before generalizing results with
  | nil => rcases hend with ht | rfl <;> simp [finalResults, *]
  | cons b before ih =>
    have hb := hbefore b (by simp)
    simp only [List.cons_append, finalResults, hb, if_true]
    exact ih _ (fun c hc => hbefore c (by simp [hc]))

/-- That test is the last to be run. -/
theorem testsRun_stops (before : List TestRun) (t : TestRun) (after : List TestRun)
    (hbefore : ∀ b ∈ before, b.Passes host judger conf.executeCondtion)
    (hend : ¬ t.Passes host judger conf.executeCondtion ∨ after = []) :
    testsRun host judger conf (before ++ t :: after) = before.length+1 := by
  induction before with
  | nil => rcases hend with ht | rfl <;> simp [testsRun, *]
  | cons b before ih =>
    have hb := hbefore b (by simp)
    have hrest := ih (fun c hc => hbefore c (by simp [hc]))
    simp only [List.cons_append, testsRun, hb, if_true, hrest, List.length_cons]

end Loop

end OnlineJudge
