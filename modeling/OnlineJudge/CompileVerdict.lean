import OnlineJudge.Precedence

/-! The compile step decides by what stands in `error_info`, and not by the status of the
compiler. -/
namespace OnlineJudge
open Posix

theorem toInt32_lt (n : ℕ) : toInt32 n < 2^31 := by
  have hbmod : Int.bmod n (2^32) < ((2^32 : ℕ)+1)/2 := Int.bmod_lt (by norm_num)
  unfold toInt32
  omega

/-- The whole file is read exactly when its length fits the `int`. -/
theorem readSized_whole_iff (data : Bytes) : readSized data = .ok data ↔ data.length < 2^31 := by
  have hlt := toInt32_lt data.length
  unfold readSized
  by_cases hsmall : data.length < 2^31
  · have hpos : ¬ ((data.length : ℕ) : ℤ) < 0 := by omega
    rw [toInt32_of_lt hsmall, if_neg hpos, Int.toNat_natCast, List.take_length]
    exact iff_of_true rfl hsmall
  · refine iff_of_false ?_ hsmall
    split_ifs with hneg
    · simp
    -- a length that has wrapped round is shorter than the file
    · intro htake
      have hlen := congrArg List.length (Except.ok.inj htake)
      rw [List.length_take] at hlen
      omega

/-- A compiler ends as a child of the shell does. -/
def Fate.status : Fate → ℤ
  | exited code => exitedStatus code
  | signaled sig core => signaledStatus sig core

theorem Fate.status_ne (fate : Fate) : fate.status ≠ -1 := by
  cases fate <;> simp only [Fate.status] <;> omega

section Tests
variable (host : Host) (judger : Judger)

theorem JudgeResult.IsKill.ne_compileError {r : JudgeResult} (h : r.IsKill) : r ≠ .kCE := by
  rcases h with h | h | h <;> simp [h]

theorem JudgeResult.IsRejection.ne_compileError {r : JudgeResult} (h : r.IsRejection) :
    r ≠ .kCE := by
  rcases h with h | h | h | h <;> simp [h]

theorem judgeVerdict_ne_compileError (cond : ExecuteCondtion) (t : TestRun) :
    t.judgeVerdict host judger cond ≠ some .kCE := by
  have hkill := @judge_run_isKill host.pagesize (judger.executeCondtion cond) judger.getCallLimit
    t.run
  rw [judger.executeCondtion_trace] at hkill
  unfold TestRun.judgeVerdict
  cases hrun : Judge.run host.pagesize (judger.executeCondtion cond) judger.getCallLimit
      (t.run.child cond.trace) with
  | error e => simp
  | ok out =>
    have hne : out.2.judgeResult ≠ .kCE := by
      by_cases haccepted : out.2.judgeResult = .kAC
      · simp [haccepted]
      · exact (hkill hrun haccepted).ne_compileError
    simpa using hne

theorem results_ne_compileError (cond : ExecuteCondtion) (t : TestRun) :
    (t.results host judger cond).judgeResult ≠ .kCE := by
  have hverdict := judgeVerdict_ne_compileError host judger cond t
  -- the verdict of a test is from the kill, from the checker or from `Judge`
  by_cases hkill : t.Killed judger cond
  · obtain ⟨r, hr, hk, _⟩ := outcome_killed host judger cond t hkill
    simpa [TestRun.results, hr] using hk.ne_compileError
  · by_cases hout : t.OutputOk host
    · obtain ⟨r, hr, _, hsame⟩ := outcome_passes host judger cond t ⟨hkill, hout⟩
      rw [hsame] at hverdict
      simpa [TestRun.results, hr] using hverdict
    · obtain ⟨r, hr, hrej⟩ := outcome_rejected host judger cond t hkill hout
      simpa [TestRun.results, hr] using hrej.ne_compileError

/-- The loop over the tests never sets `kCE`. -/
theorem finalResults_ne_compileError (conf : RunConfigure) (runs : List TestRun)
    (results : Results) (h : results.judgeResult ≠ .kCE) :
    (finalResults host judger conf runs results).judgeResult ≠ .kCE := by
  induction runs generalizing results with
  | nil => exact h
  | cons t rest ih =>
    have ht := results_ne_compileError host judger conf.executeCondtion t
    unfold finalResults
    split_ifs
    · exact ih _ ht
    · exact ht

end Tests

section Compile
variable (host : Host) (tools : Tools) (judger : Judger) (conf : RunConfigure)

/-- The command of the compile step ran to its end, and this is what its standard error left in
`error_info`. What else stands in the directory, an executable or not, is left open. -/
structure CompilerRan (cmds : String) (exit : Fate) (stderr : Bytes) : Prop where
  command : judger.compileCommand (workDirPath host conf.runId) = some cmds
  status : (tools.system cmds (storedWork judger conf)).1 = exit.status
  errorInfo : readStream (tools.system cmds (storedWork judger conf)).2 kErrorInfo = some stderr

variable {host tools judger conf} {cmds : String} {exit : Fate} {stderr : Bytes}

theorem CompilerRan.status_ne (h : CompilerRan host tools judger conf cmds exit stderr) :
    ¬ (tools.system cmds (storedWork judger conf)).1 = -1 := by
  rw [h.status]
  exact exit.status_ne

theorem compileTask_eq (h : CompilerRan host tools judger conf cmds exit stderr) :
    compileTask host tools judger conf =
      if stderr = [] then .ok (true, {}, (tools.system cmds (storedWork judger conf)).2)
      else (readSized stderr).map fun data =>
        (false, { judgeResult := .kCE, compileError := data },
          (tools.system cmds (storedWork judger conf)).2) := by
  have hran := h.status_ne
  unfold compileTask Judger.compile
  simp only [h.command, hran, if_false, hasData, readFromFile, h.errorInfo, Option.getD_some]
  by_cases hempty : stderr = []
  · simp [hempty]
  · cases readSized stderr <;> simp [hempty, Except.map]

/-- What `compile` is to answer for a compiler that ended so. -/
structure StepAnswers (exit : Fate) (stderr : Bytes) (step : Call (Bool × Results × Option Node)) :
    Prop where
  returns : ∃ ok results work, step = .ok (ok, results, work) ∧ (ok = true ↔ exit = .exited 0)
  whole : ∀ ok results work, step = .ok (ok, results, work) → results.judgeResult = .kCE →
    results.compileError = stderr

theorem stepAnswers_ok_iff (ok : Bool) (results : Results) (work : Option Node) :
    StepAnswers exit stderr (.ok (ok, results, work)) ↔
      (ok = true ↔ exit = .exited 0) ∧
        (results.judgeResult = .kCE → results.compileError = stderr) := by
  constructor
  · rintro ⟨⟨ok', results', work', hstep, hok⟩, hwhole⟩
    obtain ⟨rfl, _⟩ := Prod.mk.inj (Except.ok.inj hstep)
    exact ⟨hok, hwhole _ _ _ rfl⟩
  · rintro ⟨hok, hwhole⟩
    refine ⟨⟨ok, results, work, rfl, hok⟩, ?_⟩
    intro ok' results' work' hstep
    obtain ⟨_, hrest⟩ := Prod.mk.inj (Except.ok.inj hstep)
    obtain ⟨rfl, _⟩ := Prod.mk.inj hrest
    exact hwhole

theorem stepAnswers_silent (work : Option Node) :
    StepAnswers exit [] (.ok (true, {}, work)) ↔ exit = .exited 0 := by
  rw [stepAnswers_ok_iff]
  simp

theorem stepAnswers_message (work : Option Node) :
    StepAnswers exit stderr ((readSized stderr).map fun data =>
        (false, { judgeResult := .kCE, compileError := data }, work)) ↔
      exit ≠ .exited 0 ∧ readSized stderr = .ok stderr := by
  cases hread : readSized stderr with
  | error e =>
    -- `resize` has ended the worker
    refine iff_of_false ?_ (by simp)
    rintro ⟨⟨ok, results, left, hstep, _⟩, _⟩
    simp [Except.map] at hstep
  | ok data =>
    rw [Except.map, stepAnswers_ok_iff]
    simp

theorem stepAnswers_iff (h : CompilerRan host tools judger conf cmds exit stderr) :
    StepAnswers exit stderr (compileTask host tools judger conf) ↔
      (exit = .exited 0 ↔ stderr = []) ∧ stderr.length < 2^31 := by
  rw [compileTask_eq h]
  by_cases hempty : stderr = []
  · have hshort : stderr.length < 2^31 := by simp [hempty]
    rw [if_pos hempty, and_iff_left hshort]
    simp only [hempty, iff_true]
    exact stepAnswers_silent _
  · rw [if_neg hempty, stepAnswers_message, readSized_whole_iff]
    simp only [hempty, iff_false, ne_eq]

end Compile

section Report
variable {host : Host} {json : Json.Codec} {tools : Tools} {judger : Judger}
  {conf : RunConfigure} {cmds : String} {exit : Fate} {stderr : Bytes}

/-- What `processTask` is to report for a compiler that ended so: `kCE` where the compiler
rejects, with all of its standard error and no test started, and nowhere else. -/
def TaskReports (w : World) (exit : Fate) (stderr : Bytes)
    (task : Call (Bool × Results × World)) : Prop :=
  ∀ ok results w', task = .ok (ok, results, w') →
    (results.judgeResult = .kCE ↔ exit ≠ .exited 0) ∧
    (exit ≠ .exited 0 → w'.executed = w.executed) ∧
    (results.judgeResult = .kCE → results.compileError = stderr)

theorem taskReports_compiled {w : World} (hbuild : Buildable host w.fs conf.runId)
    (hjudger : constructJudger conf.codeType = some judger) (hexit : exit = .exited 0)
    {work : Option Node} (hcompile : compileTask host tools judger conf = .ok (true, {}, work)) :
    TaskReports w exit stderr (judgeTask host conf tools w) := by
  intro ok results w' hout
  have hends := hout
  rw [judgeTask_supported w hbuild hjudger] at hends
  rcases compileAndRun_returns hends with ⟨results', hfail, _⟩ | ⟨runs, hserved⟩
  · have hsame := call_ok_unique hcompile hfail
    simp at hsame
  · rw [judgeTask_served w hbuild hjudger hserved, Except.ok.injEq, Prod.mk.injEq,
      Prod.mk.injEq] at hout
    obtain ⟨_, rfl, _⟩ := hout
    have hne := finalResults_ne_compileError host judger conf runs {} (by simp)
    exact ⟨iff_of_false hne (not_not.mpr hexit), fun h => absurd hexit h, fun h => absurd h hne⟩

theorem taskReports_rejected {w : World} (hbuild : Buildable host w.fs conf.runId)
    (hjudger : constructJudger conf.codeType = some judger) (hexit : exit ≠ .exited 0)
    {work : Option Node} (hcompile : compileTask host tools judger conf =
      .ok (false, { judgeResult := .kCE, compileError := stderr }, work)) :
    TaskReports w exit stderr (judgeTask host conf tools w) := by
  intro ok results w' hout
  have hends := hout
  rw [judgeTask_supported w hbuild hjudger] at hends
  -- a task whose compile step is the end of it does not reach the loop
  rcases compileAndRun_returns hends with ⟨results', hfail, hclean⟩ | ⟨runs, hserved⟩
  · obtain rfl : { judgeResult := .kCE, compileError := stderr } = results' :=
      (Prod.mk.inj (Prod.mk.inj (call_ok_unique hcompile hfail)).2).1
    rw [judgeTask_rejected w hbuild hjudger hfail hclean, Except.ok.injEq, Prod.mk.injEq,
      Prod.mk.injEq] at hout
    obtain ⟨_, rfl, rfl⟩ := hout
    refine ⟨iff_of_true rfl hexit, fun _ => ?_, fun _ => rfl⟩
    rw [cleaned_executed, compiled_executed]
  · have hsame := call_ok_unique hcompile hserved.compiled
    simp at hsame

end Report

section Warning

/-- A compiler that ends with this status and message, and programs that do nothing. -/
def compilerTools (exit : Fate) (stderr : Bytes) : Tools where
  system _ work := (exit.status, writeStream work kErrorInfo stderr)
  execvp _ _ work := ⟨.endless, { data := [] }, work⟩

def warningConf : RunConfigure :=
  { rubyConf with codeType := CodeType.kTypeC.toUInt32, sourceCode := str "main() {return 0;}" }

def warningCodec : Json.Codec := .ofDocuments [(warningConf.message, warningConf.request)]

def warning : Bytes := str "main.c:1:1: warning: return type defaults to int"

theorem compilerRan_tools (exit : Fate) (stderr : Bytes) :
    CompilerRan .standard (compilerTools exit stderr) .judgeC warningConf
      "gcc /tmp/oj/7/main.c -o /tmp/oj/7/main 2> /tmp/oj/7/error_info" exit stderr :=
  ⟨by decide +kernel, rfl, rfl⟩

theorem parseData_warning : parseData warningCodec warningConf.message = .ok warningConf :=
  parseData_message warningCodec warningConf (by simp [warningCodec, Json.Codec.ofDocuments])
    (by decide)

end Warning

end OnlineJudge
