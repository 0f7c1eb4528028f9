import OnlineJudge.JudgeWorker

/-! `RebootServer`: it sends the judge server a known program to check it, and reboots it when
the reply is not an acceptance. -/
namespace OnlineJudge

namespace RebootServer

/-- The members in the order in which `Json::Value` keeps them; `runer` is not sent. -/
def requestValue (conf : RunConfigure) : Json.Value :=
  .object [("code_type", .int conf.codeType.toNat), ("memory_limit", .int conf.memoryLimit.toNat),
    ("program_id", .int conf.programId.toNat), ("run_id", .int conf.runId.toNat),
    ("run_times", .int conf.runTimes.toNat), ("source_code", .string conf.sourceCode),
    ("time_limit", .int conf.timeLimit.toNat), ("trace", .boolean conf.trace)]

def wrapData (json : Json.Codec) (conf : RunConfigure) : Bytes := json.write (requestValue conf)

/-- The two fields that are read from a reply: `compile_error`, and the number that is cast to
`JudgeResult`. The default of the latter is an enumerator of `ReturnCode`. -/
def parseData (json : Json.Codec) (rmsg : Bytes) : Call (Bytes × ℤ) := do
  let root := json.parse rmsg
  let compileError ← (← root.get "compile_error" (.string [])).asString
  let judgeResult ← (← root.get "judge_result" (.int ReturnCode.kUnknown.value)).asInt
  return (compileError, judgeResult)

/-- `readFromFile`: of a file that cannot be opened `tellg` reports -1, and the vector is
resized to that as a `size_t`. -/
def readFromFile (file : Option Bytes) : Call Bytes :=
  match file with
  | some data => .ok data
  | none => .error (.terminate "std::length_error")

def checkedConf (sourceCode : Bytes) : RunConfigure where
  runId := 0
  programId := 1
  timeLimit := 1000
  memoryLimit := 40000
  codeType := CodeType.kTypeC.toUInt32
  runTimes := 3
  runer := 0
  trace := true
  sourceCode := sourceCode

def rebootScript : String := "/acm/reboot-server.sh"

/-- What a check that returns has done: its request, and the commands given to `execCmd`. -/
structure Check where
  request : Bytes
  commands : List String
  deriving DecidableEq

/-- `checkServer` with the file `./a+b.c` and the reply, or none where `recvMsg` fails. That a
send or a receive fails is only printed. -/
def checkServer (json : Json.Codec) (file reply : Option Bytes) : Call Check := do
  let sourceCode ← readFromFile file
  let request := wrapData json (checkedConf sourceCode)
  let (_, judgeResult) ← parseData json (reply.getD [])
  return { request, commands := if judgeResult ≠ JudgeResult.kAC.value then [rebootScript] else [] }

end RebootServer

section Reply
variable {json : Json.Codec} {results : Results}

theorem get_compileError (results : Results) :
    (replyValue results).get "compile_error" (.string []) =
      .ok (.string results.compileError) := by
  simp [replyValue, Json.Value.get, List.lookup]

theorem get_judgeResult (results : Results) (defaultValue : Json.Value) :
    (replyValue results).get "judge_result" defaultValue =
      .ok (.string (str (judgeStringResult results.judgeResult))) := by
  simp [replyValue, Json.Value.get, List.lookup]

/-- The verdict of a reply is a string, and is read as a number. -/
theorem parseData_reply (hread : json.parse (wrapData json results) = replyValue results) :
    RebootServer.parseData json (wrapData json results) =
      .error (.terminate "Type is not convertible to int") := by
  simp [RebootServer.parseData, hread, get_compileError, get_judgeResult, Json.Value.asString,
    Json.Value.asInt, Json.notConvertible]

theorem checkServer_reply (hread : json.parse (wrapData json results) = replyValue results)
    (file : Bytes) :
    RebootServer.checkServer json (some file) (some (wrapData json results)) =
      .error (.terminate "Type is not convertible to int") := by
  simp [RebootServer.checkServer, RebootServer.readFromFile, parseData_reply hread]

end Reply

/-- The decoder recovers the verdict and the compiler's message of these results, and the check
that gets them runs the script exactly when the verdict is not an acceptance. -/
structure ReplyDecoded (json : Json.Codec) (results : Results) : Prop where
  parsed : RebootServer.parseData json (wrapData json results) =
    .ok (results.compileError, results.judgeResult.value)
  checked : ∀ file : Bytes, ∃ check,
    RebootServer.checkServer json (some file) (some (wrapData json results)) = .ok check ∧
      (RebootServer.rebootScript ∈ check.commands ↔ results.judgeResult ≠ .kAC)

/-- No reply of a worker is decoded: the exception ends the reboot server, and the script is
never run. -/
theorem reply_not_decoded (json : Json.Codec) (results : Results)
    (hread : json.parse (wrapData json results) = replyValue results) :
    ¬ ReplyDecoded json results ∧
      ∀ file : Bytes, RebootServer.checkServer json (some file) (some (wrapData json results)) =
        .error (.terminate "Type is not convertible to int") := by
  refine ⟨?_, checkServer_reply hread⟩
  intro hdecoded
  have hparsed := hdecoded.parsed
  rw [parseData_reply hread] at hparsed
  simp at hparsed

section SystemError

def systemErrorResults : Results := { judgeResult := .kSE }

def systemErrorCodec : Json.Codec :=
  .ofDocuments [(Json.writeValue (replyValue systemErrorResults) ++ [10],
    replyValue systemErrorResults)]

theorem systemError_read : systemErrorCodec.parse (wrapData systemErrorCodec systemErrorResults) =
    replyValue systemErrorResults := by
  simp [systemErrorCodec, wrapData, Json.Codec.ofDocuments]

theorem reply_not_decoded_systemError :
    ¬ ReplyDecoded systemErrorCodec systemErrorResults ∧
      ∀ file : Bytes, RebootServer.checkServer systemErrorCodec (some file)
        (some (wrapData systemErrorCodec systemErrorResults)) =
          .error (.terminate "Type is not convertible to int") :=
  reply_not_decoded systemErrorCodec systemErrorResults systemError_read

/-- A reply with the verdict `System Error` ends the server that should act on it. -/
theorem not_replyDecoded :
    ¬ ∀ (json : Json.Codec) (results : Results),
      json.parse (wrapData json results) = replyValue results → ReplyDecoded json results := by
  intro hclaim
  have hparsed := (hclaim systemErrorCodec systemErrorResults systemError_read).parsed
  rw [parseData_reply systemError_read] at hparsed
  simp at hparsed

end SystemError

section Request
variable {json : Json.Codec} {conf : RunConfigure}

/-- A worker reads every field of the request but the one that was not written, for which it
takes its default. -/
theorem parseData_wrapData
    (hread : json.parse (RebootServer.wrapData json conf) = RebootServer.requestValue conf) :
    parseData json (RebootServer.wrapData json conf) = .ok { conf with runer := -1 } := by
  simp [parseData, hread, RebootServer.requestValue, Json.Value.get, List.lookup, asUInt_toNat,
    Json.Value.asInt, Json.Value.asBool, Json.Value.asString]

/-- A request comes back as it was exactly when its runner is the default of the worker. -/
theorem request_roundTrip_iff (json : Json.Codec) (conf : RunConfigure)
    (hread : json.parse (RebootServer.wrapData json conf) = RebootServer.requestValue conf) :
    parseData json (RebootServer.wrapData json conf) = .ok conf ↔ conf.runer = -1 := by
  rw [parseData_wrapData hread]
  constructor
  · intro h
    have hruner := congrArg RunConfigure.runer (Except.ok.inj h)
    exact hruner.symm
  · intro h
    rw [← h]

end Request

section Runner

/-- The request of a check, for the user that its source leaves in a comment. -/
def userConf : RunConfigure :=
  { RebootServer.checkedConf (str "int main() \x7b\x7d") with runer := 1000 }

def userCodec : Json.Codec :=
  .ofDocuments [(Json.writeValue (RebootServer.requestValue userConf) ++ [10],
    RebootServer.requestValue userConf)]

theorem userConf_read : userCodec.parse (RebootServer.wrapData userCodec userConf) =
    RebootServer.requestValue userConf := by
  simp [userCodec, RebootServer.wrapData, Json.Codec.ofDocuments]

theorem request_roundTrip_iff_user :
    parseData userCodec (RebootServer.wrapData userCodec userConf) = .ok userConf ↔
      userConf.runer = -1 :=
  request_roundTrip_iff userCodec userConf userConf_read

/-- The user of the request is lost on its way to the worker. -/
theorem not_request_roundTrip :
    ¬ ∀ (json : Json.Codec) (conf : RunConfigure),
      json.parse (RebootServer.wrapData json conf) = RebootServer.requestValue conf →
      parseData json (RebootServer.wrapData json conf) = .ok conf := by
  intro hclaim
  have hround := hclaim userCodec userConf userConf_read
  rw [parseData_wrapData userConf_read] at hround
  have hruner := congrArg RunConfigure.runer (Except.ok.inj hround)
  simp [userConf] at hruner

end Runner

end OnlineJudge
