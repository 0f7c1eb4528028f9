import OnlineJudge.Json
import OnlineJudge.Judger

/-! `JudgeWorker`: a request is decoded, compiled and run test by test in its own work
directory, and its results are encoded; `run` repeats this for every message. -/
namespace OnlineJudge

/-- A file of one test, named as `getFileno` names it. -/
inductive DataPath
  | rightInput (programId : UInt32) (num : ℕ)
  | rightOutput (programId : UInt32) (num : ℕ)
  | userOutput (runId : UInt32) (num : ℕ)
  deriving DecidableEq

/-- An open file of `protocol.h`; every `open` gives a new number, so that a descriptor that
the kernel hands out again is told from the one that was closed. -/
structure File where
  filepath : DataPath
  fd : ℕ
  deriving DecidableEq

inductive FdEvent
  | opened (fd : ℕ)
  | closed (fd : ℕ)
  deriving DecidableEq

/-- `FileManger`, the vector of open files with its flag. -/
structure FileManger where
  files : List File := []
  isClosed : Bool := true
  deriving DecidableEq

def FileManger.pushBack (m : FileManger) (file : File) : FileManger :=
  { files := m.files ++ [file], isClosed := false }

/-- A worker's open files with their history, and the tests it has run. -/
structure Ledger where
  fileManager : FileManger := {}
  nextFd : ℕ := 0
  fdLog : List FdEvent := []
  executed : List ℕ := []
  deriving DecidableEq

/-- What a worker works on: its own files, and those it shares with the others. -/
structure World extends Ledger where
  fs : FileSystem

namespace World

def openFile (w : World) (filepath : DataPath) : File × World :=
  (⟨filepath, w.nextFd⟩, { w with nextFd := w.nextFd+1, fdLog := w.fdLog ++ [.opened w.nextFd] })

/-- `FileManger::closeAll`: the destructor of every file, in order. -/
def closeAll (w : World) : World :=
  if w.fileManager.isClosed then w
  else
    { w with
      fileManager := {}
      fdLog := w.fdLog ++ w.fileManager.files.map (fun file => .closed file.fd) }

def pushBack (w : World) (file : File) : World :=
  { w with fileManager := w.fileManager.pushBack file }

def setWork (w : World) (runId : UInt32) (n : Option Node) : World :=
  { w with fs := w.fs.setWork runId n }

@[simp] theorem setWork_fs (w : World) (runId : UInt32) (n : Option Node) :
    (w.setWork runId n).fs = w.fs.setWork runId n := rfl

@[simp] theorem setWork_setWork (w : World) (runId : UInt32) (n n' : Option Node) :
    (w.setWork runId n).setWork runId n' = w.setWork runId n' := by
  simp [setWork]

@[simp] theorem setWork_fileManager (w : World) (runId : UInt32) (n : Option Node) :
    (w.setWork runId n).fileManager = w.fileManager := rfl

@[simp] theorem setWork_nextFd (w : World) (runId : UInt32) (n : Option Node) :
    (w.setWork runId n).nextFd = w.nextFd := rfl

@[simp] theorem setWork_fdLog (w : World) (runId : UInt32) (n : Option Node) :
    (w.setWork runId n).fdLog = w.fdLog := rfl

@[simp] theorem setWork_executed (w : World) (runId : UInt32) (n : Option Node) :
    (w.setWork runId n).executed = w.executed := rfl

end World

/-- The last part of `%s/%d/%d.out`. -/
def userOutputName (num : ℕ) : String := toString num ++ ".out"

/-- `getFileno`, with the file behind `right_output_fileno`. The three files come under the
care of the file manager when all of them are open. -/
def getFileno (conf : RunConfigure) (num : ℕ) (w : World) : Call (IOFileno × FileView × World) :=
  match w.fs.data.rightInput conf.programId num with
  | none => printError "open file error" ENOENT
  | some _ =>
    let (rightInputFile, w) := w.openFile (.rightInput conf.programId num)
    match w.fs.data.rightOutput conf.programId num with
    | none => printError "open file error" ENOENT
    | some rightout => do
      let (rightOutputFile, w) := w.openFile (.rightOutput conf.programId num)
      let work ← createFile (w.fs.work conf.runId) (userOutputName num)
      let (userOutputFile, w) :=
        (w.setWork conf.runId work).openFile (.userOutput conf.runId num)
      let io := IOFileno.mk rightInputFile.fd rightOutputFile.fd userOutputFile.fd
      return (io, rightout,
        ((w.pushBack rightInputFile).pushBack rightOutputFile).pushBack userOutputFile)

def parseData (json : Json.Codec) (msg : Bytes) : Call RunConfigure := do
  let root := json.parse msg
  let runId ← (← root.get "run_id" (.int 1)).asUInt
  let timeLimit ← (← root.get "time_limit" (.int 0)).asUInt
  let memoryLimit ← (← root.get "memory_limit" (.int 0)).asUInt
  let codeType ← (← root.get "code_type" (.int CodeType.kTypeUnknown.toUInt32.toNat)).asUInt
  let trace := (← root.get "trace" (.boolean true)).asBool
  let runTimes ← (← root.get "run_times" (.int 0)).asUInt
  let programId ← (← root.get "program_id" (.int 0)).asUInt
  let runer ← (← root.get "runner" (.int (-1))).asInt
  let sourceCode ← (← root.get "source_code" (.string [])).asString
  return { runId, timeLimit, memoryLimit, codeType, trace, runTimes, programId, runer, sourceCode }

/-- `a` is read under this key, or from the default where the key is missing. -/
def Reads {α : Type} (root : Json.Value) (key : String) (defaultValue : Json.Value)
    (convert : Json.Value → Call α) (a : α) : Prop :=
  ∃ v, root.get key defaultValue = .ok v ∧ convert v = .ok a

structure Parsed (root : Json.Value) (conf : RunConfigure) : Prop where
  runId : Reads root "run_id" (.int 1) Json.Value.asUInt conf.runId
  timeLimit : Reads root "time_limit" (.int 0) Json.Value.asUInt conf.timeLimit
  memoryLimit : Reads root "memory_limit" (.int 0) Json.Value.asUInt conf.memoryLimit
  codeType : Reads root "code_type" (.int CodeType.kTypeUnknown.toUInt32.toNat) Json.Value.asUInt
    conf.codeType
  trace : Reads root "trace" (.boolean true) (fun v => .ok v.asBool) conf.trace
  runTimes : Reads root "run_times" (.int 0) Json.Value.asUInt conf.runTimes
  programId : Reads root "program_id" (.int 0) Json.Value.asUInt conf.programId
  runer : Reads root "runner" (.int (-1)) Json.Value.asInt conf.runer
  sourceCode : Reads root "source_code" (.string []) Json.Value.asString conf.sourceCode

theorem parseData_ok_iff {json : Json.Codec} {msg : Bytes} {conf : RunConfigure} :
    parseData json msg = .ok conf ↔ Parsed (json.parse msg) conf := by
  simp only [parseData, call_bind_ok_iff, call_pure, Except.ok.injEq]
  constructor
  · rintro ⟨vid, hid, _, hid', vtime, htime, _, htime', vmemory, hmemory, _, hmemory',
      vcode, hcode, _, hcode', vtrace, htrace, vtimes, htimes, _, htimes', vprogram, hprogram,
      _, hprogram', vruner, hruner, _, hruner', vsource, hsource, _, hsource', rfl⟩
    exact ⟨⟨vid, hid, hid'⟩, ⟨vtime, htime, htime'⟩, ⟨vmemory, hmemory, hmemory'⟩,
      ⟨vcode, hcode, hcode'⟩, ⟨vtrace, htrace, rfl⟩, ⟨vtimes, htimes, htimes'⟩,
      ⟨vprogram, hprogram, hprogram'⟩, ⟨vruner, hruner, hruner'⟩, ⟨vsource, hsource, hsource'⟩⟩
  · intro h
    obtain ⟨vid, hid, hid'⟩ := h.runId
    obtain ⟨vtime, htime, htime'⟩ := h.timeLimit
    obtain ⟨vmemory, hmemory, hmemory'⟩ := h.memoryLimit
    obtain ⟨vcode, hcode, hcode'⟩ := h.codeType
    obtain ⟨vtrace, htrace, htrace'⟩ := h.trace
    obtain ⟨vtimes, htimes, htimes'⟩ := h.runTimes
    obtain ⟨vprogram, hprogram, hprogram'⟩ := h.programId
    obtain ⟨vruner, hruner, hruner'⟩ := h.runer
    obtain ⟨vsource, hsource, hsource'⟩ := h.sourceCode
    refine ⟨vid, hid, _, hid', vtime, htime, _, htime', vmemory, hmemory, _, hmemory', vcode,
      hcode, _, hcode', vtrace, htrace, vtimes, htimes, _, htimes', vprogram, hprogram, _,
      hprogram', vruner, hruner, _, hruner', vsource, hsource, _, hsource', ?_⟩
    rw [Except.ok.inj htrace']

def RunConfigure.request (conf : RunConfigure) : Json.Value :=
  .object [("code_type", .int conf.codeType.toNat), ("memory_limit", .int conf.memoryLimit.toNat),
    ("program_id", .int conf.programId.toNat), ("run_id", .int conf.runId.toNat),
    ("run_times", .int conf.runTimes.toNat), ("runner", .int conf.runer),
    ("source_code", .string conf.sourceCode), ("time_limit", .int conf.timeLimit.toNat),
    ("trace", .boolean conf.trace)]

def RunConfigure.message (conf : RunConfigure) : Bytes := Json.writeValue conf.request

theorem asUInt_toNat (n : UInt32) : Json.Value.asUInt (.int n.toNat) = .ok n := by
  have hlt := n.toNat_lt
  have hneg : ¬ ((n.toNat : ℕ) : ℤ) < 0 := by omega
  have hle : ((n.toNat : ℕ) : ℤ) ≤ 4294967295 := by omega
  have hof : UInt32.ofInt n.toNat = n := by
    have hmod : ((n.toNat : ℤ) % 2^32).toNat = n.toNat := by omega
    rw [UInt32.ofInt, hmod, UInt32.ofNat_toNat]
  rw [Json.Value.asUInt, if_neg hneg, if_pos hle, hof]

/-- Every configuration is that of some request. -/
theorem parseData_message (json : Json.Codec) (conf : RunConfigure)
    (hread : json.parse conf.message = conf.request) (hruner : conf.runer ≤ 2147483647) :
    parseData json conf.message = .ok conf := by
  simp [parseData, hread, RunConfigure.request, Json.Value.get, List.lookup, asUInt_toNat,
    Json.Value.asInt, Json.Value.asBool, Json.Value.asString, hruner]

/-- The members in the order in which `Json::Value` keeps them. -/
def replyValue (results : Results) : Json.Value :=
  .object [("compile_error", .string results.compileError),
    ("judge_result", .string (str (judgeStringResult results.judgeResult))),
    ("memory_used", .int results.memoryUsed.toNat),
    ("run_id", .int results.runId.toNat),
    ("signum_result", .int results.signumResult),
    ("time_used", .int results.timeUsed.toNat)]

def wrapData (json : Json.Codec) (results : Results) : Bytes := json.write (replyValue results)

def RunConfigure.executeCondtion (conf : RunConfigure) : ExecuteCondtion :=
  { timeLimit := conf.timeLimit, memoryLimit := conf.memoryLimit, runer := conf.runer
    trace := conf.trace, memoryAdd := 0 }

/-- The child of test `num`, in the work directory as it is when the test starts. -/
def childRun (host : Host) (judger : Judger) (conf : RunConfigure) (tools : Tools) (num : ℕ)
    (work : Option Node) : ChildRun :=
  let run := tools.execvp (judger.getCmdArgs (workDirPath host conf.runId)) num work
  { run with fate := run.fate.setRunner conf.executeCondtion.runer }

/-- `judger->execute` in the loop of `processTask`. -/
def executeTest (host : Host) (judger : Judger) (conf : RunConfigure) (tools : Tools) (num : ℕ)
    (rightout : FileView) (results : Results) (w : World) : Call (Bool × Results × World) := do
  let run := childRun host judger conf tools num (w.fs.work conf.runId)
  let (again, results) ←
    judger.execute host.pagesize conf.executeCondtion run rightout results
  return (again, results,
    { w.setWork conf.runId run.work with executed := w.executed ++ [num] })

/-- The loop over the tests, from test `num` on with `rounds` of them left. The `int` of the
source is compared as a `uint32_t`, so the loop makes `run_times` rounds. -/
def testLoop (host : Host) (judger : Judger) (conf : RunConfigure) (tools : Tools) :
    ℕ → ℕ → Results → World → Call (Results × World)
  | 0, _, results, w => .ok (results, w)
  | rounds+1, num, results, w => do
    let (_, rightout, w) ← getFileno conf num w
    let (again, results, w) ← executeTest host judger conf tools num rightout results w
    if again then testLoop host judger conf tools rounds (num+1) results w.closeAll
    else return (results, w)

def cleanEnv (host : Host) (runId : UInt32) (w : World) : Call World := do
  let work ← removeDir (pathBytes (workDirPath host runId)) (w.fs.work runId)
  return w.setWork runId work

/-- The end of `processTask`: the run id is put into the results, and the directory goes. -/
def finishTask (host : Host) (runId : UInt32) (results : Results) (w : World) :
    Call (Bool × Results × World) := do
  let w ← cleanEnv host runId w
  return (true, { results with runId }, w)

/-- `processTask` from `compile` on. -/
def compileAndRun (host : Host) (judger : Judger) (conf : RunConfigure) (tools : Tools)
    (w : World) : Call (Bool × Results × World) := do
  let (compiled, results, work) ←
    judger.compile (workDirPath host conf.runId) tools {} (w.fs.work conf.runId)
  let w := w.setWork conf.runId work
  if !compiled then finishTask host conf.runId results w
  else
    let (results, w) ← testLoop host judger conf tools conf.runTimes.toNat 0 results w
    finishTask host conf.runId results w

/-- `processTask` from the decoded request on. -/
def judgeTask (host : Host) (conf : RunConfigure) (tools : Tools) (w : World) :
    Call (Bool × Results × World) := do
  let (built, fs) ← buildEnv host w.fs conf.runId
  let w := { w with fs }
  if !built then return (false, {}, w)
  match constructJudger conf.codeType with
  | none => return (false, {}, w)
  | some judger =>
    let stored := judger.storeSourceFile conf.sourceCode (w.fs.work conf.runId)
    compileAndRun host judger conf tools (w.setWork conf.runId stored)

/-- `processTask`, with the `Results` that `run` declares. -/
def processTask (host : Host) (json : Json.Codec) (tools : Tools) (msg : Bytes) (w : World) :
    Call (Bool × Results × World) := do
  let conf ← parseData json msg
  judgeTask host conf tools w

end OnlineJudge
