import OnlineJudge.CallLimit
import OnlineJudge.CheckerTotal
import OnlineJudge.FileSystem
import OnlineJudge.JudgeVerdict

/-! The `Judger` classes: where a language keeps its files, how it is compiled, and one test
of it, which is a run under `Judge` followed by the check of the output. -/
namespace OnlineJudge

/-- What becomes of the child that `Judge::Run` starts. -/
inductive ChildFate
  | vforkError (errno : Errno)
  /-- A call before its program fails, and it leaves through `printError`. -/
  | failed
  /-- It never ends, and no stop of it makes the tracer kill it. -/
  | endless
  | ended (run : Ended)
  deriving DecidableEq

/-- What the parent meets. A child of `vfork` that calls `exit` runs the destructors of the server,
and from there on nothing is defined. -/
def ChildFate.child (trace : Bool) : ChildFate → Option Child
  | vforkError errno => some ⟨some errno, []⟩
  | failed => none
  | endless => some ⟨none, []⟩
  | ended run => some (run.child trace)

/-- The child comes past `setRunner`, which refuses root. -/
def ChildFate.setRunner (runer : ℤ) : ChildFate → ChildFate
  | vforkError errno => vforkError errno
  | fate => if runer = 0 then failed else fate

theorem setRunner_ended {runer : ℤ} {fate : ChildFate} {run : Ended} :
    fate.setRunner runer = .ended run ↔ runer ≠ 0 ∧ fate = .ended run := by
  cases fate <;> by_cases hroot : runer = 0 <;> simp [ChildFate.setRunner, hroot]

/-- One run of a submission: the fate of the child, what stands in the output file
afterwards, and what the child leaves of the work directory. -/
structure ChildRun where
  fate : ChildFate
  output : FileView
  work : Option Node

/-- The programs that the server starts for one request. Both see the work directory:
`system` with the command of the compiler, and the child of `vfork` with its arguments and the
number of the test. What a program changes outside of the work directory is no part of these. -/
structure Tools where
  system : String → Option Node → ℤ × Option Node
  execvp : List String → ℕ → Option Node → ChildRun

/-- The classes derived from `Judger`. -/
inductive Judger
  | judgeC | judgeCpp | judgePython | judgeJava | judgeRuby
  deriving DecidableEq, Repr

def constructJudger (codeType : UInt32) : Option Judger :=
  if codeType = CodeType.kTypeC.toUInt32 then some .judgeC
  else if codeType = CodeType.kTypeCpp.toUInt32 then some .judgeCpp
  else if codeType = CodeType.kTypePython.toUInt32 then some .judgePython
  else if codeType = CodeType.kTypeJava.toUInt32 then some .judgeJava
  else if codeType = CodeType.kTypeRuby.toUInt32 then some .judgeRuby
  else none

def kErrorInfo : String := "error_info"

/-- `hasData`: the length that `tellg` reports at the end of the file is positive. -/
def hasData (work : Option Node) (name : String) : Bool :=
  match readStream work name with
  | some data => !data.isEmpty
  | none => false

/-- The `int` in which `readFromFile` keeps the length of a file: `resize` refuses a negative one
as a `size_t`, and what lies behind the length is not read. -/
def readSized (data : Bytes) : Call Bytes :=
  if toInt32 data.length < 0 then .error (.terminate "std::length_error")
  else .ok (data.take (toInt32 data.length).toNat)

def readFromFile (work : Option Node) (name : String) : Call Bytes :=
  readSized ((readStream work name).getD [])

namespace Judger

def sourceFile : Judger → String
  | judgeC => "main.c"
  | judgeCpp => "main.c"
  | judgePython => "main.py"
  | judgeJava => "Main.java"
  | judgeRuby => "main.rb"

def storeSourceFile (judger : Judger) (sourceCode : Bytes) (work : Option Node) : Option Node :=
  writeStream work judger.sourceFile sourceCode

/-- The shell command of `compile`; `JudgeRuby` keeps `Judger::compile`, which has none. -/
def compileCommand (workDirPath : String) : Judger → Option String
  | judgeC => some ("gcc " ++ workDirPath ++ "/main.c -o " ++ workDirPath ++ "/main 2> " ++
      workDirPath ++ "/error_info")
  | judgeCpp => some ("g++ " ++ workDirPath ++ "/main.c -o " ++ workDirPath ++ "/main 2> " ++
      workDirPath ++ "/error_info")
  | judgePython => some ("python -m py_compile " ++ workDirPath ++ "/main.py 2> " ++
      workDirPath ++ "/error_info")
  | judgeJava => some ("javac -J-Xms32m -J-Xmx256m " ++ workDirPath ++ "/Main.java 2> " ++
      workDirPath ++ "/error_info")
  | judgeRuby => none

def compile (judger : Judger) (workDirPath : String) (tools : Tools) (results : Results)
    (work : Option Node) : Call (Bool × Results × Option Node) :=
  match judger.compileCommand workDirPath with
  | none => .ok (true, results, work)
  | some cmds => do
    let (status, work) := tools.system cmds work
    if status = -1 then return (false, { results with judgeResult := .kSE }, work)
    else if hasData work kErrorInfo then
      let data ← readFromFile work kErrorInfo
      return (false, { results with compileError := data, judgeResult := .kCE }, work)
    else return (true, results, work)

def getCmdArgs (workDirPath : String) : Judger → List String
  | judgeC => [workDirPath ++ "/main"]
  | judgeCpp => [workDirPath ++ "/main"]
  | judgePython => ["python", workDirPath ++ "/main.py"]
  | judgeJava => ["java", "-cp", workDirPath, "-Xms32m", "-Xmx256m", "Main"]
  | judgeRuby => ["ruby", workDirPath ++ "/main.rb"]

def getCallLimit : Judger → CallLimit
  | judgeC => cCallLimit
  | judgeCpp => cppCallLimit
  | judgePython => pythonCallLimit
  | judgeJava => javaCallLimit
  | judgeRuby => rubyCallLimit

/-- The `execute` of Java, Python and Ruby sets `memory_add` before every test, to the same
value each time. -/
def executeCondtion (cond : ExecuteCondtion) : Judger → ExecuteCondtion
  | judgeC => cond
  | judgeCpp => cond
  | judgePython => { cond with memoryAdd := 1024*2 }
  | judgeJava => { cond with memoryAdd := 1024*14 }
  | judgeRuby => { cond with memoryAdd := 1024*2 }

@[simp] theorem executeCondtion_trace (cond : ExecuteCondtion) (judger : Judger) :
    (judger.executeCondtion cond).trace = cond.trace := by
  cases judger <;> rfl

/-- `execute` on one run of the child and the expected output. -/
def execute (pagesize : ℕ) (judger : Judger) (cond : ExecuteCondtion) (run : ChildRun)
    (rightout : FileView) (results : Results) : Call (Bool × Results) :=
  match run.fate.child cond.trace with
  | none => .error .undefined
  | some child => do
    let (code, judged) ←
      Judge.run pagesize (judger.executeCondtion cond) judger.getCallLimit child
    match code with
    | .kOk => do
      let (checked, checker) ← Checker.run pagesize run.output rightout
      if checked = .kError then return (false, { judged with judgeResult := checker.result })
      return (true, judged)
    | .kError => return (false, judged)
    | .kUnknown => return (false, results)

end Judger

/-- One test as it is handed to `execute`: a child that runs to its end, and the two files
that are compared. -/
structure TestRun where
  run : Ended
  userout : FileView
  rightout : FileView
  deriving DecidableEq

namespace TestRun
variable (host : Host) (judger : Judger) (cond : ExecuteCondtion)

def Killed (t : TestRun) : Prop :=
  StoppedByTracer (judger.executeCondtion cond) judger.getCallLimit t.run

def Limited (t : TestRun) : Prop :=
  WithinLimits host.pagesize (judger.executeCondtion cond) t.run

/-- `Checker::run` on the files of the test returns `kOk`. -/
def OutputOk (t : TestRun) : Prop :=
  ∃ checker, Checker.run host.pagesize t.userout t.rightout = .ok (.kOk, checker)

/-- The test lets the loop of `processTask` go on. -/
def Passes (t : TestRun) : Prop := ¬ t.Killed judger cond ∧ t.OutputOk host

instance (t : TestRun) : Decidable (t.Killed judger cond) :=
  inferInstanceAs (Decidable (StoppedByTracer _ _ _))

instance (t : TestRun) : Decidable (t.Limited host judger cond) :=
  inferInstanceAs (Decidable (WithinLimits _ _ _))

instance (t : TestRun) : Decidable (t.OutputOk host) :=
  match h : Checker.run host.pagesize t.userout t.rightout with
  | .ok (.kOk, checker) => .isTrue ⟨checker, h⟩
  | .ok (.kError, _) => .isFalse (by rintro ⟨c, hc⟩; simp [h] at hc)
  | .ok (.kUnknown, _) => .isFalse (by rintro ⟨c, hc⟩; simp [h] at hc)
  | .error _ => .isFalse (by rintro ⟨c, hc⟩; simp [h] at hc)

instance (t : TestRun) : Decidable (t.Passes host judger cond) :=
  inferInstanceAs (Decidable (_ ∧ _))

/-- The verdict that `TraceLoop` or `WaitExit` sets on the test. -/
def judgeVerdict (t : TestRun) : Option JudgeResult :=
  match Judge.run host.pagesize (judger.executeCondtion cond) judger.getCallLimit
      (t.run.child cond.trace) with
  | .ok (_, results) => some results.judgeResult
  | .error _ => none

def outcome (t : TestRun) : Call (Bool × Results) :=
  judger.execute host.pagesize cond ⟨.ended t.run, t.userout, none⟩ t.rightout {}

def results (t : TestRun) : Results :=
  match t.outcome host judger cond with
  | .ok (_, results) => results
  | .error _ => {}

end TestRun

def ChildRun.Is (run : ChildRun) (t : TestRun) : Prop :=
  run.fate = .ended t.run ∧ run.output = t.userout

section Execute
variable (host : Host) (judger : Judger) (cond : ExecuteCondtion)

theorem judge_killed (run : Ended)
    (h : StoppedByTracer (judger.executeCondtion cond) judger.getCallLimit run) :
    ∃ judged, Judge.run host.pagesize (judger.executeCondtion cond) judger.getCallLimit
      (run.child cond.trace) = .ok (.kError, judged) ∧ judged.judgeResult.IsKill := by
  have hrun := judge_run_stopped host.pagesize _ _ run h
  rwa [judger.executeCondtion_trace] at hrun

theorem judge_finished (run : Ended)
    (h : ¬ StoppedByTracer (judger.executeCondtion cond) judger.getCallLimit run) :
    ∃ judged, Judge.run host.pagesize (judger.executeCondtion cond) judger.getCallLimit
      (run.child cond.trace) = .ok (.kOk, judged) ∧
      (judged.judgeResult = .kAC ↔
        WithinLimits host.pagesize (judger.executeCondtion cond) run) := by
  have hrun := judge_run_finished host.pagesize _ _ run h
  rwa [judger.executeCondtion_trace] at hrun

variable {child : Child}

/-- A `kError` of `Judge` ends the test. -/
theorem execute_error (run : ChildRun) (rightout : FileView) (results : Results)
    {judged : Results} (hchild : run.fate.child cond.trace = some child)
    (hjudge : Judge.run host.pagesize (judger.executeCondtion cond) judger.getCallLimit child =
      .ok (.kError, judged)) :
    judger.execute host.pagesize cond run rightout results = .ok (false, judged) := by
  simp only [Judger.execute, hchild, hjudge, call_ok_bind, call_pure]

/-- After a `kOk` of `Judge` the checker decides. -/
theorem execute_ok (run : ChildRun) (rightout : FileView) (results : Results)
    {judged : Results} {checked : ReturnCode × Checker}
    (hchild : run.fate.child cond.trace = some child)
    (hjudge : Judge.run host.pagesize (judger.executeCondtion cond) judger.getCallLimit child =
      .ok (.kOk, judged))
    (hcheck : Checker.run host.pagesize run.output rightout = .ok checked) :
    judger.execute host.pagesize cond run rightout results =
      .ok (if checked.1 = .kError then (false, { judged with judgeResult := checked.2.result })
        else (true, judged)) := by
  simp only [Judger.execute, hchild, hjudge, hcheck, call_ok_bind, call_pure]
  split_ifs <;> rfl

/-- A call of `execute` that returns has met a child that came to its program. -/
theorem execute_returns (run : ChildRun) (rightout : FileView) (results : Results)
    {out : Bool × Results}
    (h : judger.execute host.pagesize cond run rightout results = .ok out) :
    ∃ ended, run.fate = .ended ended := by
  unfold Judger.execute at h
  cases hfate : run.fate with
  | vforkError errno => simp [hfate, ChildFate.child, Judge.run, printError] at h
  | failed => simp [hfate, ChildFate.child] at h
  | endless =>
    cases htrace : cond.trace <;>
      simp [hfate, ChildFate.child, Judge.run, traceLoop, waitExit, htrace] at h
  | ended ended => exact ⟨ended, rfl⟩

variable (t : TestRun)

theorem judgeVerdict_accepted_iff :
    t.judgeVerdict host judger cond = some .kAC ↔
      ¬ t.Killed judger cond ∧ t.Limited host judger cond := by
  unfold TestRun.judgeVerdict
  by_cases hkill : t.Killed judger cond
  · obtain ⟨judged, hjudge, hk⟩ := judge_killed host judger cond t.run hkill
    simp [hjudge, hkill, hk.ne_accepted]
  · obtain ⟨judged, hjudge, hres⟩ := judge_finished host judger cond t.run hkill
    simp only [hjudge, hkill, not_false_eq_true, true_and, Option.some.injEq]
    exact hres

/-- A test that the tracer kills ends the loop with the verdict of the tracer. -/
theorem outcome_killed (h : t.Killed judger cond) :
    ∃ r, t.outcome host judger cond = .ok (false, r) ∧ r.judgeResult.IsKill ∧
      t.judgeVerdict host judger cond = some r.judgeResult := by
  obtain ⟨judged, hjudge, hkill⟩ := judge_killed host judger cond t.run h
  refine ⟨judged, execute_error host judger cond _ _ _ rfl hjudge, hkill, ?_⟩
  simp [TestRun.judgeVerdict, hjudge]

/-- A test whose output is refused ends the loop with the verdict of the checker. -/
theorem outcome_rejected (hkill : ¬ t.Killed judger cond) (hout : ¬ t.OutputOk host) :
    ∃ r, t.outcome host judger cond = .ok (false, r) ∧ r.judgeResult.IsRejection := by
  obtain ⟨judged, hjudge, _⟩ := judge_finished host judger cond t.run hkill
  obtain ⟨⟨code, checker⟩, hcheck, hchecked⟩ :=
    checker_run_returns host.pagesize host.max_lt_pagesize t.userout t.rightout
  have hexec := execute_ok host judger cond ⟨.ended t.run, t.userout, none⟩ t.rightout {} rfl
    hjudge hcheck
  rcases hchecked with ⟨hcode, _⟩ | ⟨hcode, hrej⟩
  · exact absurd ⟨checker, by rw [hcheck, show code = .kOk from hcode]⟩ hout
  · rw [if_pos hcode] at hexec
    exact ⟨_, hexec, hrej⟩

/-- A test that passes keeps the verdict of `Judge`, whatever it is. -/
theorem outcome_passes (h : t.Passes host judger cond) :
    ∃ r, t.outcome host judger cond = .ok (true, r) ∧
      (r.judgeResult = .kAC ↔ t.Limited host judger cond) ∧
      t.judgeVerdict host judger cond = some r.judgeResult := by
  obtain ⟨judged, hjudge, hres⟩ := judge_finished host judger cond t.run h.1
  obtain ⟨checker, hcheck⟩ := h.2
  have hexec := execute_ok host judger cond ⟨.ended t.run, t.userout, none⟩ t.rightout {} rfl
    hjudge hcheck
  rw [if_neg (by simp)] at hexec
  exact ⟨judged, hexec, hres, by simp [TestRun.judgeVerdict, hjudge]⟩

/-- A test that does not pass ends the loop, and never with `kAC`. -/
theorem outcome_fails (h : ¬ t.Passes host judger cond) :
    ∃ r, t.outcome host judger cond = .ok (false, r) ∧ r.judgeResult ≠ .kAC := by
  by_cases hkill : t.Killed judger cond
  · obtain ⟨r, hr, hk, _⟩ := outcome_killed host judger cond t hkill
    exact ⟨r, hr, hk.ne_accepted⟩
  · have hout : ¬ t.OutputOk host := fun hout => h ⟨hkill, hout⟩
    obtain ⟨r, hr, hrej⟩ := outcome_rejected host judger cond t hkill hout
    exact ⟨r, hr, hrej.ne_accepted⟩

theorem outcome_eq :
    t.outcome host judger cond =
      .ok (decide (t.Passes host judger cond), t.results host judger cond) := by
  by_cases h : t.Passes host judger cond
  · obtain ⟨r, hr, _⟩ := outcome_passes host judger cond t h
    simp [TestRun.results, hr, h]
  · obtain ⟨r, hr, _⟩ := outcome_fails host judger cond t h
    simp [TestRun.results, hr, h]

theorem results_accepted_iff :
    (t.results host judger cond).judgeResult = .kAC ↔
      t.Passes host judger cond ∧ t.Limited host judger cond := by
  by_cases h : t.Passes host judger cond
  · obtain ⟨r, hr, hac, _⟩ := outcome_passes host judger cond t h
    simp [TestRun.results, hr, h, hac]
  · obtain ⟨r, hr, hne⟩ := outcome_fails host judger cond t h
    simp [TestRun.results, hr, h, hne]

theorem execute_eq_outcome (run : ChildRun) (hrun : run.Is t) (results : Results) :
    judger.execute host.pagesize cond run t.rightout results = t.outcome host judger cond := by
  obtain ⟨hfate, hout⟩ := hrun
  have hchild : run.fate.child cond.trace = some (t.run.child cond.trace) := by rw [hfate]; rfl
  by_cases hkill : t.Killed judger cond
  · obtain ⟨judged, hjudge, _⟩ := judge_killed host judger cond t.run hkill
    rw [execute_error host judger cond run _ _ hchild hjudge]
    exact (execute_error host judger cond ⟨.ended t.run, t.userout, none⟩ _ _ rfl hjudge).symm
  · obtain ⟨judged, hjudge, _⟩ := judge_finished host judger cond t.run hkill
    obtain ⟨checked, hcheck, _⟩ :=
      checker_run_returns host.pagesize host.max_lt_pagesize t.userout t.rightout
    rw [execute_ok host judger cond run _ _ hchild hjudge (by rw [hout]; exact hcheck)]
    exact (execute_ok host judger cond ⟨.ended t.run, t.userout, none⟩ _ _ rfl hjudge
      hcheck).symm

end Execute

end OnlineJudge
