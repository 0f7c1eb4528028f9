import Mathlib

/-! The records and enumerations of `protocol.h`, and the ways in which a C++ call can fail
to return to its caller. -/
namespace OnlineJudge

/-- The contents of a file, of a ZeroMQ frame or of a `std::string`. -/
abbrev Bytes := List UInt8

abbrev Errno := ℕ

/-- A string literal of the source as the bytes of a `std::string`. -/
def str (s : String) : Bytes := s.toList.map (fun c => c.toNat.toUInt8)

def kMaxLength : ℕ := 1000

inductive CodeType
  | kTypeC | kTypeCpp | kTypePython | kTypeJava | kTypePascal | kTypeBash | kTypePerl
  | kTypeRuby | kTypeUnknown
  deriving DecidableEq, Repr

def CodeType.toUInt32 : CodeType → UInt32
  | kTypeC => 0
  | kTypeCpp => 1
  | kTypePython => 2
  | kTypeJava => 3
  | kTypePascal => 4
  | kTypeBash => 5
  | kTypePerl => 6
  | kTypeRuby => 7
  | kTypeUnknown => 8

inductive JudgeResult
  | kAC | kPE | kTLE | kMLE | kWA | kRE | kOLE | kCE | kSE | kUKE
  deriving DecidableEq, Repr

/-- The enumerators as numbers. -/
def JudgeResult.value : JudgeResult → ℤ
  | kAC => 0
  | kPE => 1
  | kTLE => 2
  | kMLE => 3
  | kWA => 4
  | kRE => 5
  | kOLE => 6
  | kCE => 7
  | kSE => 8
  | kUKE => 9

def judgeStringResult : JudgeResult → String
  | .kAC => "Accepted"
  | .kPE => "Presentation Error"
  | .kTLE => "Time Limit Exceeded"
  | .kMLE => "Memory Limit Exceeded"
  | .kWA => "Wrong Answer"
  | .kRE => "Runtime Error"
  | .kOLE => "Output Limit Exceeded"
  | .kCE => "Compile Error"
  | .kSE => "System Error"
  | .kUKE => "Unknown Error"

/-- `kOk` lets the test loop continue, `kError` ends it. -/
inductive ReturnCode
  | kOk | kError | kUnknown
  deriving DecidableEq, Repr

def ReturnCode.value : ReturnCode → ℤ
  | kOk => 0
  | kError => 1
  | kUnknown => 2

/-- The default values are those of the constructor `Results::Results`. -/
structure Results where
  judgeResult : JudgeResult := .kUKE
  timeUsed : UInt32 := 0
  memoryUsed : UInt32 := 0
  signumResult : ℤ := -1
  runId : UInt32 := 0
  compileError : Bytes := []
  deriving DecidableEq, Repr

structure RunConfigure where
  runId : UInt32
  programId : UInt32
  timeLimit : UInt32
  memoryLimit : UInt32
  codeType : UInt32
  runTimes : UInt32
  runer : ℤ
  trace : Bool
  sourceCode : Bytes
  deriving DecidableEq, Repr

structure IOFileno where
  rightInputFileno : ℕ
  rightOutputFileno : ℕ
  userOutputFileno : ℕ
  deriving DecidableEq, Repr

structure ExecuteCondtion where
  timeLimit : UInt32
  memoryLimit : UInt32
  runer : ℤ
  trace : Bool
  memoryAdd : UInt32
  deriving DecidableEq, Repr

/-- Why a call of the server does not return. -/
inductive Abort
  /-- `printError`: `perror(error)` and `exit(errno)`, which ends the whole process. The number is
  the one that `perror` prints; `perror` may change `errno` before `exit` reads it, and the exit
  status is left open. -/
  | exit (error : String) (errno : Errno)
  /-- An exception that nobody catches, or a failed assertion of a library. -/
  | terminate (what : String)
  /-- The call waits, or loops, for ever. -/
  | blocked
  /-- An operation that C++ leaves undefined. -/
  | undefined
  deriving DecidableEq, Repr

/-- The whole process is gone, and not only the thread that made the call. -/
def Abort.endsProcess : Abort → Bool
  | blocked => false
  | _ => true

abbrev Call (α : Type) := Except Abort α

def printError {α : Type} (error : String) (errno : Errno) : Call α := .error (.exit error errno)

section Call
variable {α β : Type}

@[simp] theorem call_pure (a : α) : (pure a : Call α) = .ok a := rfl

@[simp] theorem call_ok_bind (a : α) (f : α → Call β) :
    ((Except.ok a : Call α) >>= f) = f a := rfl

@[simp] theorem call_error_bind (e : Abort) (f : α → Call β) :
    ((Except.error e : Call α) >>= f) = .error e := rfl

/-- A sequence of calls returns when each of them does. -/
theorem call_bind_ok_iff (x : Call α) (f : α → Call β) (b : β) :
    (x >>= f) = .ok b ↔ ∃ a, x = .ok a ∧ f a = .ok b := by
  cases x <;> simp

theorem call_ok_unique {x : Call α} {a b : α} (h : x = .ok a) (h' : x = .ok b) : a = b :=
  Except.ok.inj (h.symm.trans h')

end Call

end OnlineJudge
