import OnlineJudge.TestLoop

/-! `processTask` as a whole: exactly when it returns, with which results, and what it does
to the files it shares with other workers. -/
namespace OnlineJudge

section Remove
variable (host : Host) (runId : UInt32)

/-- What `removeDir` has to find at the path of a run: a directory, and no name in it that is too
long for its buffer. -/
def Cleanable (work : Option Node) : Prop :=
  ∃ entries, work = some (.dir entries) ∧ Fits (pathBytes (workDirPath host runId)) entries

/-- What a call of `removeDir` that returns leaves at the path. -/
def removed (work : Option Node) : Option Node :=
  match removeDir (pathBytes (workDirPath host runId)) work with
  | .ok left => left
  | .error _ => work

variable {host runId} {work left : Option Node}

theorem removeDir_cleanable (h : Cleanable host runId work) :
    removeDir (pathBytes (workDirPath host runId)) work = .ok (removed host runId work) := by
  obtain ⟨entries, rfl, hfits⟩ := h
  simp only [removed, removeDir_fits hfits]

theorem removeDir_returns {dirPath : Bytes} (h : removeDir dirPath work = .ok left) :
    ∃ entries, work = some (.dir entries) ∧ Fits dirPath entries := by
  cases work with
  | none => simp [removeDir, printError] at h
  | some n =>
    cases n with
    | file data => simp [removeDir, printError] at h
    | symlink opens => simp [removeDir, printError] at h
    | dir entries =>
      refine ⟨entries, rfl, ?_⟩
      by_contra hlong
      simp [removeDir_overrun hlong] at h

end Remove

section Build
variable (host : Host)

/-- `mkdir(temp_dir)` or every `mkdir` below it is refused. -/
def Unbuildable (fs : FileSystem) : Prop :=
  fs.temp = .notDirectory ∨ ∃ errno, fs.temp = .refused errno

/-- The path is free, or one pass of `removeDir` frees it. -/
def Clearable (runId : UInt32) (work : Option Node) : Prop :=
  work = none ∨ ∃ entries, work = some (.dir entries) ∧
    Fits (pathBytes (workDirPath host runId)) entries ∧ ∀ e ∈ entries, e.2.staysBehind = false

def Buildable (fs : FileSystem) (runId : UInt32) : Prop :=
  fs.temp = .absent ∨ (fs.temp = .directory ∧ Clearable host runId (fs.work runId))

def builtFs (fs : FileSystem) (runId : UInt32) : FileSystem :=
  (if fs.temp = .absent then { fs with temp := .directory, work := fun _ => none } else fs).setWork
    runId (some (.dir []))

variable {host}

theorem mkdirRetry_returns_iff (runId : UInt32) (work : Option Node) :
    (∃ out, mkdirRetry (pathBytes (workDirPath host runId)) 2 work = .ok out) ↔
      Clearable host runId work := by
  -- the first `mkdir` works, or `removeDir` runs and the second one decides
  cases work with
  | none => simp [mkdirRetry, Clearable]
  | some n =>
    cases n with
    | file data => simp [mkdirRetry, removeDir, printError, Clearable]
    | symlink opens => simp [mkdirRetry, removeDir, printError, Clearable]
    | dir entries =>
      by_cases hfits : Fits (pathBytes (workDirPath host runId)) entries
      · by_cases hleft : entries.filter (·.2.staysBehind) = []
        · simpa [mkdirRetry, removeDir_fits hfits, hleft, Clearable, hfits] using
            List.filter_eq_nil_iff.mp hleft
        · have hnot : ¬ Clearable host runId (some (.dir entries)) := by
            rintro (h | ⟨entries', h, _, hnone⟩)
            · simp at h
            · obtain rfl : entries = entries' := by simpa using h
              exact hleft (List.filter_eq_nil_iff.mpr (by simpa using hnone))
          have hagain := removeDir_fits
            (hfits.sublist (List.filter_sublist (p := (·.2.staysBehind))))
          simp only [hnot, iff_false]
          simp [mkdirRetry, removeDir_fits hfits, hleft, hagain, List.filter_filter]
      · have hnot : ¬ Clearable host runId (some (.dir entries)) := by
          rintro (h | ⟨entries', h, hyes, _⟩)
          · simp at h
          · obtain rfl : entries = entries' := by simpa using h
            exact hfits hyes
        simp [mkdirRetry, removeDir_overrun hfits, hnot]

theorem mkdirRetry_result {dirPath : Bytes} {k : ℕ} {work out : Option Node}
    (h : mkdirRetry dirPath k work = .ok out) : out = some (.dir []) := by
  induction k generalizing work with
  | zero => simp [mkdirRetry] at h
  | succ k ih =>
    cases work with
    | none => simpa [mkdirRetry, eq_comm] using h
    | some n =>
      cases hleft : removeDir dirPath (some n) with
      | error e => simp [mkdirRetry, hleft] at h
      | ok left =>
        simp only [mkdirRetry, hleft, call_ok_bind] at h
        exact ih h

theorem buildEnv_buildable {fs : FileSystem} {runId : UInt32} (h : Buildable host fs runId) :
    buildEnv host fs runId = .ok (true, builtFs fs runId) := by
  rcases h with habs | ⟨hdir, hclear⟩
  · simp [buildEnv, builtFs, habs]
  · obtain ⟨out, hout⟩ := (mkdirRetry_returns_iff runId _).mpr hclear
    rw [mkdirRetry_result hout] at hout
    simp [buildEnv, builtFs, hdir, hout]

theorem buildEnv_unbuildable {fs : FileSystem} (runId : UInt32) (h : Unbuildable fs) :
    buildEnv host fs runId = .ok (false, fs) := by
  rcases h with h | ⟨errno, h⟩ <;> simp [buildEnv, h]

theorem buildEnv_returns {fs : FileSystem} {runId : UInt32} {out : Bool × FileSystem}
    (h : buildEnv host fs runId = .ok out) : Unbuildable fs ∨ Buildable host fs runId := by
  cases htemp : fs.temp with
  | absent => exact Or.inr (Or.inl htemp)
  | notDirectory => exact Or.inl (Or.inl htemp)
  | refused errno => exact Or.inl (Or.inr ⟨errno, htemp⟩)
  | directory =>
    cases hretry : mkdirRetry (pathBytes (workDirPath host runId)) 2 (fs.work runId) with
    | error e => simp [buildEnv, htemp, hretry] at h
    | ok work =>
      exact Or.inr (Or.inr ⟨htemp, (mkdirRetry_returns_iff runId _).mp ⟨work, hretry⟩⟩)

@[simp] theorem builtFs_work_self (fs : FileSystem) (runId : UInt32) :
    (builtFs fs runId).work runId = some (.dir []) := by
  simp [builtFs]

@[simp] theorem builtFs_data (fs : FileSystem) (runId : UInt32) :
    (builtFs fs runId).data = fs.data := by
  unfold builtFs
  split_ifs <;> rfl

end Build

section Task
variable (host : Host) (tools : Tools)

/-- The work directory when `compile` is called. -/
def storedWork (judger : Judger) (conf : RunConfigure) : Option Node :=
  judger.storeSourceFile conf.sourceCode (some (.dir []))

/-- The compile step of a request, in its fresh work directory. -/
def compileTask (judger : Judger) (conf : RunConfigure) : Call (Bool × Results × Option Node) :=
  judger.compile (workDirPath host conf.runId) tools {} (storedWork judger conf)

/-- What `compile` leaves of the work directory. -/
def Judger.compiledWork (judger : Judger) (path : String) (work : Option Node) : Option Node :=
  match judger.compileCommand path with
  | none => work
  | some cmds => (tools.system cmds work).2

def compiledWork (judger : Judger) (conf : RunConfigure) : Option Node :=
  judger.compiledWork tools (workDirPath host conf.runId) (storedWork judger conf)

variable {tools} in
/-- A compile step that returns has left the results alone, or set `kSE` or `kCE`. -/
theorem compile_returns {judger : Judger} {path : String} {results : Results}
    {work : Option Node} {out : Bool × Results × Option Node}
    (h : judger.compile path tools results work = .ok out) :
    out.2.2 = judger.compiledWork tools path work ∧
      ((out.1 = true ∧ out.2.1 = results) ∨
        (out.1 = false ∧ (out.2.1.judgeResult = .kSE ∨ out.2.1.judgeResult = .kCE))) := by
  unfold Judger.compile at h
  unfold Judger.compiledWork
  -- no compiler, `system` returns -1, data in the error file, or nothing there
  cases hcmd : judger.compileCommand path with
  | none =>
    simp only [hcmd, Except.ok.injEq] at h
    rw [← h]
    exact ⟨rfl, Or.inl ⟨rfl, rfl⟩⟩
  | some cmds =>
    simp only [hcmd] at h
    by_cases hstatus : (tools.system cmds work).1 = -1
    · simp only [hstatus, if_true, call_pure, Except.ok.injEq] at h
      rw [← h]
      exact ⟨rfl, Or.inr ⟨rfl, Or.inl rfl⟩⟩
    · by_cases hdata : hasData (tools.system cmds work).2 kErrorInfo
      · simp only [hstatus, hdata, if_false, if_true, call_bind_ok_iff, call_pure,
          Except.ok.injEq] at h
        obtain ⟨data, _, rfl⟩ := h
        exact ⟨rfl, Or.inr ⟨rfl, Or.inr rfl⟩⟩
      · simp only [hstatus, hdata, Bool.false_eq_true, if_false, call_pure, Except.ok.injEq] at h
        rw [← h]
        exact ⟨rfl, Or.inl ⟨rfl, rfl⟩⟩

/-- The length of what the compiler leaves in `error_info` is no negative `int`. -/
def Judger.MessageFits (judger : Judger) (path : String) (work : Option Node) : Prop :=
  ∀ cmds, judger.compileCommand path = some cmds → (tools.system cmds work).1 ≠ -1 →
    0 ≤ toInt32 ((readStream (tools.system cmds work).2 kErrorInfo).getD []).length

variable {tools} in
theorem compile_returns_iff {judger : Judger} {path : String} (results : Results)
    {work : Option Node} :
    (∃ out, judger.compile path tools results work = .ok out) ↔
      judger.MessageFits tools path work := by
  have hzero : toInt32 0 = 0 := toInt32_of_lt (by norm_num)
  unfold Judger.compile Judger.MessageFits
  cases judger.compileCommand path with
  | none => simp
  | some cmds =>
    by_cases hstatus : (tools.system cmds work).1 = -1
    · simp [hstatus]
    · cases hread : readStream (tools.system cmds work).2 kErrorInfo with
      | none => simp [hstatus, hasData, hread, hzero]
      | some data =>
        by_cases hempty : data = []
        · simp [hstatus, hasData, hread, hempty, hzero]
        · by_cases hlen : toInt32 data.length < 0
          · simp [hstatus, hasData, hread, hempty, readFromFile, readSized, hlen]
          · simp [hstatus, hasData, hread, hempty, readFromFile, readSized, hlen, not_lt.mp hlen]

def World.built (w : World) (runId : UInt32) : World := { w with fs := builtFs w.fs runId }

def World.compiled (w : World) (judger : Judger) (conf : RunConfigure) : World :=
  (w.built conf.runId).setWork conf.runId (compiledWork host tools judger conf)

def World.cleaned (w : World) (runId : UInt32) : World :=
  w.setWork runId (removed host runId (w.fs.work runId))

def World.tested (w : World) (judger : Judger) (conf : RunConfigure) (runs : List TestRun) :
    World :=
  worldAfter host judger conf tools runs 0 (w.compiled host tools judger conf)

/-- The compile step accepts the program. -/
def Compiles (judger : Judger) (conf : RunConfigure) : Prop :=
  compileTask host tools judger conf = .ok (true, {}, compiledWork host tools judger conf)

/-- The compile step reports these results. -/
def Rejects (judger : Judger) (conf : RunConfigure) (results : Results) : Prop :=
  compileTask host tools judger conf = .ok (false, results, compiledWork host tools judger conf)

/-- The outcomes of all tests of a request whose compile step succeeds, and a work directory
that can still be cleaned. -/
structure TaskServed (data : TestData) (conf : RunConfigure) (judger : Judger)
    (runs : List TestRun) : Prop where
  compiled : Compiles host tools judger conf
  length : runs.length = conf.runTimes.toNat
  tests : TestsServed host judger conf tools data runs 0 (compiledWork host tools judger conf)
  cleaned : Cleanable host conf.runId
    (workAfter host judger conf tools runs 0 (compiledWork host tools judger conf))

@[simp] theorem built_work_self (w : World) (runId : UInt32) :
    (w.built runId).fs.work runId = some (.dir []) := by
  simp [World.built]

@[simp] theorem built_data (w : World) (runId : UInt32) :
    (w.built runId).fs.data = w.fs.data := by
  simp [World.built]

/-- A compile step that returns accepts the program or reports why not. -/
theorem compileTask_returns {judger : Judger} {conf : RunConfigure}
    {out : Bool × Results × Option Node} (h : compileTask host tools judger conf = .ok out) :
    Compiles host tools judger conf ∨ ∃ results, Rejects host tools judger conf results ∧
      (results.judgeResult = .kSE ∨ results.judgeResult = .kCE) := by
  obtain ⟨ok, results, work⟩ := out
  obtain ⟨hwork, hok⟩ := compile_returns h
  obtain rfl : work = compiledWork host tools judger conf := hwork
  rcases hok with ⟨rfl, rfl⟩ | ⟨rfl, hresults⟩
  · exact Or.inl h
  · exact Or.inr ⟨results, h, hresults⟩

@[simp] theorem compiled_work_self (w : World) (judger : Judger) (conf : RunConfigure) :
    (w.compiled host tools judger conf).fs.work conf.runId =
      compiledWork host tools judger conf := by
  simp [World.compiled]

@[simp] theorem compiled_data (w : World) (judger : Judger) (conf : RunConfigure) :
    (w.compiled host tools judger conf).fs.data = w.fs.data := by
  simp [World.compiled]

@[simp] theorem tested_work_self (w : World) (judger : Judger) (conf : RunConfigure)
    (runs : List TestRun) :
    (w.tested host tools judger conf runs).fs.work conf.runId =
      workAfter host judger conf tools runs 0 (compiledWork host tools judger conf) := by
  simp [World.tested, worldAfter_fs]

@[simp] theorem compiled_executed (w : World) (judger : Judger) (conf : RunConfigure) :
    (w.compiled host tools judger conf).executed = w.executed := rfl

@[simp] theorem cleaned_executed (w : World) (runId : UInt32) :
    (w.cleaned host runId).executed = w.executed := rfl

theorem tested_executed (w : World) (judger : Judger) (conf : RunConfigure)
    (runs : List TestRun) :
    (w.tested host tools judger conf runs).executed =
      w.executed ++ List.range' 0 (testsRun host judger conf runs) := by
  rw [World.tested, worldAfter_executed, compiled_executed]

variable {host} in
theorem cleanEnv_cleanable {runId : UInt32} {w : World}
    (h : Cleanable host runId (w.fs.work runId)) :
    cleanEnv host runId w = .ok (w.cleaned host runId) := by
  simp [cleanEnv, World.cleaned, removeDir_cleanable h]

variable {host} in
theorem cleanEnv_returns {runId : UInt32} {w w' : World} (h : cleanEnv host runId w = .ok w') :
    Cleanable host runId (w.fs.work runId) := by
  simp only [cleanEnv, call_bind_ok_iff] at h
  obtain ⟨left, hleft, _⟩ := h
  exact removeDir_returns hleft

variable {host} in
theorem finishTask_cleanable {runId : UInt32} {w : World} (results : Results)
    (h : Cleanable host runId (w.fs.work runId)) :
    finishTask host runId results w =
      .ok (true, { results with runId }, w.cleaned host runId) := by
  rw [finishTask, cleanEnv_cleanable h]
  rfl

variable {host} in
theorem finishTask_returns {runId : UInt32} {results : Results} {w : World}
    {out : Bool × Results × World} (h : finishTask host runId results w = .ok out) :
    Cleanable host runId (w.fs.work runId) := by
  simp only [finishTask, call_bind_ok_iff] at h
  obtain ⟨w', hclean, _⟩ := h
  exact cleanEnv_returns hclean

variable {host} in
theorem finishTask_results {runId : UInt32} {results : Results} {w : World} {ok : Bool}
    {results' : Results} {w' : World}
    (h : finishTask host runId results w = .ok (ok, results', w')) :
    ok = true ∧ results' = { results with runId } := by
  simp only [finishTask, call_bind_ok_iff, call_pure, Except.ok.injEq, Prod.mk.injEq] at h
  obtain ⟨_, _, hok, hresults, _⟩ := h
  exact ⟨hok.symm, hresults.symm⟩

variable {host tools} {conf : RunConfigure} {judger : Judger}

theorem judgeTask_unbuildable (w : World) (h : Unbuildable w.fs) :
    judgeTask host conf tools w = .ok (false, {}, w) := by
  simp [judgeTask, buildEnv_unbuildable conf.runId h]

/-- No judger for the language: the directory is left behind. -/
theorem judgeTask_unsupported (w : World) (hbuild : Buildable host w.fs conf.runId)
    (h : constructJudger conf.codeType = none) :
    judgeTask host conf tools w = .ok (false, {}, w.built conf.runId) := by
  simp [judgeTask, buildEnv_buildable hbuild, h, World.built]

/-- A supported request in a directory that can be built gets as far as its compile step. -/
theorem judgeTask_supported (w : World) (hbuild : Buildable host w.fs conf.runId)
    (hjudger : constructJudger conf.codeType = some judger) :
    judgeTask host conf tools w = compileAndRun host judger conf tools
      ((w.built conf.runId).setWork conf.runId (storedWork judger conf)) := by
  simp [judgeTask, buildEnv_buildable hbuild, hjudger, World.built, storedWork]

theorem compileAndRun_compiles (w : World) (h : Compiles host tools judger conf) :
    compileAndRun host judger conf tools
        ((w.built conf.runId).setWork conf.runId (storedWork judger conf)) =
      testLoop host judger conf tools conf.runTimes.toNat 0 {} (w.compiled host tools judger conf)
        >>= fun out => finishTask host conf.runId out.1 out.2 := by
  have hstep := h
  unfold Compiles compileTask at hstep
  simp [compileAndRun, hstep, World.compiled]

theorem compileAndRun_rejects (w : World) {results : Results}
    (h : Rejects host tools judger conf results) :
    compileAndRun host judger conf tools
        ((w.built conf.runId).setWork conf.runId (storedWork judger conf)) =
      finishTask host conf.runId results (w.compiled host tools judger conf) := by
  have hstep := h
  unfold Rejects compileTask at hstep
  simp [compileAndRun, hstep, World.compiled]

theorem judgeTask_rejected (w : World) {results : Results}
    (hbuild : Buildable host w.fs conf.runId)
    (hjudger : constructJudger conf.codeType = some judger)
    (hfail : Rejects host tools judger conf results)
    (hclean : Cleanable host conf.runId (compiledWork host tools judger conf)) :
    judgeTask host conf tools w = .ok (true, { results with runId := conf.runId },
      (w.compiled host tools judger conf).cleaned host conf.runId) := by
  rw [judgeTask_supported w hbuild hjudger, compileAndRun_rejects w hfail]
  exact finishTask_cleanable results (by simpa using hclean)

/-- The results of a request whose tests are run are those of the last test that is run. -/
theorem judgeTask_served {runs : List TestRun} (w : World)
    (hbuild : Buildable host w.fs conf.runId)
    (hjudger : constructJudger conf.codeType = some judger)
    (h : TaskServed host tools w.fs.data conf judger runs) :
    judgeTask host conf tools w =
      .ok (true, { finalResults host judger conf runs {} with runId := conf.runId },
        (w.tested host tools judger conf runs).cleaned host conf.runId) := by
  have hloop := testLoop_served host judger conf tools runs 0 {} (w.compiled host tools judger conf)
    (by simpa using h.tests)
  rw [h.length] at hloop
  rw [judgeTask_supported w hbuild hjudger, compileAndRun_compiles w h.compiled, hloop]
  exact finishTask_cleanable (w := w.tested host tools judger conf runs) _
    (by simpa using h.cleaned)

variable (host tools)

/-- Everything that a task can meet and still return. -/
inductive TaskEnds (w : World) (conf : RunConfigure) : Prop
  | unbuildable (h : Unbuildable w.fs)
  | unsupported (hbuild : Buildable host w.fs conf.runId)
      (h : constructJudger conf.codeType = none)
  | rejected (judger : Judger) (results : Results) (hbuild : Buildable host w.fs conf.runId)
      (hjudger : constructJudger conf.codeType = some judger)
      (hfail : Rejects host tools judger conf results)
      (hclean : Cleanable host conf.runId (compiledWork host tools judger conf))
  | served (judger : Judger) (runs : List TestRun) (hbuild : Buildable host w.fs conf.runId)
      (hjudger : constructJudger conf.codeType = some judger)
      (h : TaskServed host tools w.fs.data conf judger runs)

variable {host tools}

theorem compileAndRun_returns {w : World} {out : Bool × Results × World}
    (h : compileAndRun host judger conf tools
      ((w.built conf.runId).setWork conf.runId (storedWork judger conf)) = .ok out) :
    (∃ results, Rejects host tools judger conf results ∧
        Cleanable host conf.runId (compiledWork host tools judger conf)) ∨
      ∃ runs, TaskServed host tools w.fs.data conf judger runs := by
  have hcompile : ∃ step, compileTask host tools judger conf = .ok step := by
    cases hstep : compileTask host tools judger conf with
    | ok step => exact ⟨step, rfl⟩
    | error e =>
      unfold compileTask at hstep
      simp [compileAndRun, hstep] at h
  obtain ⟨step, hstep⟩ := hcompile
  -- the compiler passes and the tests are run, or its verdict is the result
  rcases compileTask_returns host tools hstep with hok | ⟨results, hfail, _⟩
  · right
    rw [compileAndRun_compiles w hok, call_bind_ok_iff] at h
    obtain ⟨looped, hloop, h⟩ := h
    obtain ⟨runs, hlen, htests⟩ := testLoop_returns host judger conf tools _ _ _ _ hloop
    have hserved := testLoop_served host judger conf tools runs 0 {} _ htests
    rw [hlen, hloop, Except.ok.injEq] at hserved
    rw [hserved] at h
    have hclean := finishTask_returns (w := w.tested host tools judger conf runs) h
    exact ⟨runs, hok, hlen, by simpa using htests, by simpa using hclean⟩
  · left
    rw [compileAndRun_rejects w hfail] at h
    exact ⟨results, hfail, by simpa using finishTask_returns h⟩

theorem judgeTask_returns_iff (w : World) :
    (∃ out, judgeTask host conf tools w = .ok out) ↔ TaskEnds host tools w conf := by
  constructor
  · rintro ⟨out, hout⟩
    -- along `processTask`: `buildEnv`, then the judger of the code type, then its two calls
    cases hbuilt : buildEnv host w.fs conf.runId with
    | error e => simp [judgeTask, hbuilt] at hout
    | ok built =>
      rcases buildEnv_returns hbuilt with hun | hbuild
      · exact .unbuildable hun
      · cases hjudger : constructJudger conf.codeType with
        | none => exact .unsupported hbuild hjudger
        | some judger =>
          rw [judgeTask_supported w hbuild hjudger] at hout
          rcases compileAndRun_returns hout with ⟨results, hfail, hclean⟩ | ⟨runs, hserved⟩
          · exact .rejected judger results hbuild hjudger hfail hclean
          · exact .served judger runs hbuild hjudger hserved
  · intro h
    cases h with
    | unbuildable h => exact ⟨_, judgeTask_unbuildable w h⟩
    | unsupported hbuild h => exact ⟨_, judgeTask_unsupported w hbuild h⟩
    | rejected judger results hbuild hjudger hfail hclean =>
      exact ⟨_, judgeTask_rejected w hbuild hjudger hfail hclean⟩
    | served judger runs hbuild hjudger h => exact ⟨_, judgeTask_served w hbuild hjudger h⟩

theorem processTask_parsed {json : Json.Codec} {msg : Bytes} (w : World)
    (h : parseData json msg = .ok conf) :
    processTask host json tools msg w = judgeTask host conf tools w := by
  simp [processTask, h]

end Task

section Outcomes
variable (runs : ℕ → TestRun)

/-- Programs that touch no file: the compiler finds no error, and test `num` ends as told. -/
def Tools.ofRuns : Tools where
  system _ work := (0, work)
  execvp _ num work := ⟨.ended (runs num).run, (runs num).userout, work⟩

def TestData.ofRuns : TestData where
  rightInput _ _ := some []
  rightOutput _ num := some (runs num).rightout

/-- The names that the server gives in a work directory have at most 14 bytes; its path leaves
room for them. -/
def Host.Short (host : Host) : Prop := (pathBytes (cStr host.tempDir)).length ≤ 73

theorem standard_short : Host.standard.Short := by
  unfold Host.Short
  decide +kernel

theorem Host.Short.workDirPath {host : Host} (h : host.Short) (runId : UInt32) :
    (pathBytes (workDirPath host runId)).length ≤ 84 := by
  have hid : (decimal runId.toNat).length ≤ 10 :=
    decimal_length_le (by norm_num) (by have hlt := runId.toNat_lt; omega)
  rw [workDirPath_length]
  unfold Host.Short at h
  omega

/-- A directory of files with names as the server gives them. -/
def OnlyFiles (work : Option Node) : Prop :=
  ∃ entries : Entries, work = some (.dir entries) ∧
    ∀ e ∈ entries, (pathBytes e.1).length ≤ 14 ∧ ∃ data, e.2 = .file data

theorem OnlyFiles.cleanable {host : Host} (hshort : host.Short) {work : Option Node}
    (h : OnlyFiles work) (runId : UInt32) : Cleanable host runId work := by
  obtain ⟨entries, rfl, hfiles⟩ := h
  have hpath := hshort.workDirPath runId
  refine ⟨entries, rfl, fits_iff.mpr ?_⟩
  intro e he _
  have hname := (hfiles e he).1
  omega

theorem sourceFile_short (judger : Judger) : (pathBytes judger.sourceFile).length ≤ 14 := by
  cases judger <;> decide +kernel

theorem userOutputName_short {num : ℕ} (h : num < 2^32) :
    (pathBytes (userOutputName num)).length ≤ 14 := by
  have hnum : (decimal num).length ≤ 10 := decimal_length_le (by norm_num) (by omega)
  have hext : (pathBytes ".out").length = 4 := by decide +kernel
  rw [userOutputName, pathBytes_append, List.length_append, hext, ← decimal]
  omega

theorem createFile_onlyFiles {work : Option Node} (h : OnlyFiles work) {name : String}
    (hname : (pathBytes name).length ≤ 14) :
    ∃ work', createFile work name = .ok work' ∧ OnlyFiles work' := by
  obtain ⟨entries, rfl, hfiles⟩ := h
  cases hentry : entries.lookup name with
  | none =>
    refine ⟨some (.dir (entries ++ [(name, .file [])])), by simp [createFile, hentry], _, rfl, ?_⟩
    intro e he
    rcases List.mem_append.mp he with hold | hnew
    · exact hfiles e hold
    · rw [List.mem_singleton.mp hnew]
      exact ⟨hname, [], rfl⟩
  | some n =>
    obtain ⟨before, after, hentries, _⟩ := List.lookup_eq_some_iff.mp hentry
    obtain ⟨_, data, hdata⟩ := hfiles (name, n) (by simp [hentries])
    obtain rfl : n = .file data := hdata
    exact ⟨_, by simp [createFile, hentry], entries, rfl, hfiles⟩

theorem withOutput_onlyFiles {work : Option Node} (h : OnlyFiles work) {num : ℕ}
    (hnum : num < 2^32) : OnlyFiles (withOutput work num) := by
  obtain ⟨work', hcreate, hfiles⟩ := createFile_onlyFiles h (userOutputName_short hnum)
  rwa [createFile_withOutput hcreate]

theorem compiles_ofRuns (host : Host) (judger : Judger) (conf : RunConfigure) :
    Compiles host (.ofRuns runs) judger conf := by
  have hname : ("error_info" == judger.sourceFile) = false := by cases judger <;> decide
  unfold Compiles compileTask compiledWork Judger.compile Judger.compiledWork
  cases judger.compileCommand (workDirPath host conf.runId) <;>
    simp [storedWork, Judger.storeSourceFile, writeStream, Tools.ofRuns, hasData, readStream,
      kErrorInfo, List.lookup, hname]

theorem compiledWork_ofRuns (host : Host) (judger : Judger) (conf : RunConfigure) :
    compiledWork host (.ofRuns runs) judger conf =
      some (.dir [(judger.sourceFile, .file conf.sourceCode)]) := by
  unfold compiledWork Judger.compiledWork
  cases judger.compileCommand (workDirPath host conf.runId) <;> rfl

section Served
variable (host : Host) (judger : Judger) {conf : RunConfigure} (hroot : conf.runer ≠ 0)
include hroot

theorem childRun_ofRuns (num : ℕ) (work : Option Node) :
    childRun host judger conf (.ofRuns runs) num work =
      ⟨.ended (runs num).run, (runs num).userout, work⟩ := by
  have hfate : (ChildFate.ended (runs num).run).setRunner conf.runer = .ended (runs num).run :=
    setRunner_ended.mpr ⟨hroot, rfl⟩
  simp only [childRun, Tools.ofRuns, RunConfigure.executeCondtion, hfate]

theorem testsServed_ofRuns (rounds num : ℕ) (hnum : num+rounds ≤ 2^32) (work : Option Node)
    (h : OnlyFiles work) :
    TestsServed host judger conf (.ofRuns runs) (.ofRuns runs)
      ((List.range' num rounds).map runs) num work := by
  induction rounds generalizing num work with
  | zero => trivial
  | succ rounds ih =>
    have hlt : num < 2^32 := by omega
    obtain ⟨work', hcreate, _⟩ := createFile_onlyFiles h (userOutputName_short hlt)
    have hchild := childRun_ofRuns runs host judger hroot num (withOutput work num)
    refine ⟨⟨⟨[], rfl⟩, rfl, ⟨work', hcreate⟩⟩, ?_, ?_⟩
    · rw [hchild]
      exact ⟨rfl, rfl⟩
    · intro _
      apply ih (num+1) (by omega)
      rw [workAfterTest, hchild]
      exact withOutput_onlyFiles h hlt

theorem workAfter_ofRuns (tests : List TestRun) (num : ℕ) (hnum : num+tests.length ≤ 2^32)
    (work : Option Node) (h : OnlyFiles work) :
    OnlyFiles (workAfter host judger conf (.ofRuns runs) tests num work) := by
  induction tests generalizing num work with
  | nil => exact h
  | cons t rest ih =>
    rw [List.length_cons] at hnum
    have hleft : OnlyFiles (workAfterTest host judger conf (.ofRuns runs) num work) := by
      rw [workAfterTest, childRun_ofRuns runs host judger hroot]
      exact withOutput_onlyFiles h (by omega)
    unfold workAfter
    split_ifs
    · exact ih (num+1) (by omega) _ hleft
    · exact hleft

/-- Every list of outcomes is that of some request. -/
theorem taskServed_ofRuns (hshort : host.Short) :
    TaskServed host (.ofRuns runs) (.ofRuns runs) conf judger
      ((List.range' 0 conf.runTimes.toNat).map runs) := by
  have hlt := conf.runTimes.toNat_lt
  have hfiles : OnlyFiles (compiledWork host (.ofRuns runs) judger conf) := by
    rw [compiledWork_ofRuns]
    refine ⟨_, rfl, ?_⟩
    intro e he
    rw [List.mem_singleton.mp he]
    exact ⟨sourceFile_short judger, conf.sourceCode, rfl⟩
  constructor
  · exact compiles_ofRuns runs host judger conf
  · simp
  · exact testsServed_ofRuns runs host judger hroot _ 0 (by omega) _ hfiles
  · exact (workAfter_ofRuns runs host judger hroot _ 0 (by simp; omega) _ hfiles).cleanable hshort
      conf.runId

end Served

end Outcomes

end OnlineJudge
