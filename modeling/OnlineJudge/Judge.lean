import OnlineJudge.Protocol
import OnlineJudge.WaitStatus

/-! One run of a submission under `Judge`: the child is waited for once (`WaitExit`) or
followed from stop to stop (`TraceLoop`), and classified by its fate and its resources. -/
namespace OnlineJudge
open Posix

/-- The fields of `struct rusage` that are read. -/
structure Rusage where
  utimeSec : ℤ
  utimeUsec : ℤ
  minflt : ℤ
  deriving DecidableEq

/-- The signed 64-bit sum of the source, stored into a `uint32_t`. -/
def timeUsed (resource : Rusage) : UInt32 :=
  UInt32.ofInt (resource.utimeSec*1000+resource.utimeUsec.tdiv 1000)

def memoryUsed (pagesize : ℤ) (memoryAdd : UInt32) (resource : Rusage) : UInt32 :=
  UInt32.ofInt (resource.minflt*(pagesize.tdiv 1024)-memoryAdd.toNat)

/-- What one successful `wait4` reports, with `orig_rax` as `PTRACE_GETREGS` finds it. -/
inductive WaitEvent
  | exited (code : UInt8) (resource : Rusage)
  | signaled (sig : Signal) (core : Bool) (resource : Rusage)
  | stopped (sig : Signal) (origRax : UInt64) (resource : Rusage)
  deriving DecidableEq

namespace WaitEvent

def status : WaitEvent → Status
  | exited code _ => exitedStatus code
  | signaled sig core _ => signaledStatus sig core
  | stopped sig _ _ => stoppedStatus sig

def resource : WaitEvent → Rusage
  | exited _ resource => resource
  | signaled _ _ resource => resource
  | stopped _ _ resource => resource

/-- Only read at a stop. -/
def origRax : WaitEvent → UInt64
  | stopped _ origRax _ => origRax
  | _ => 0

end WaitEvent

/-- The conversion to `int` that `std::set<int>::find` makes of an `unsigned long long`. -/
def toInt (x : UInt64) : ℤ := Int.bmod x.toNat (2^32)

/-- `std::set<int>`; only membership is asked of it. -/
abbrev CallLimit := List ℤ

/-- The `switch` on the signal number that `WaitExit` and `TraceLoop` both make. -/
def signalResult (cond : ExecuteCondtion) (memory : UInt32) (sig : ℕ) : JudgeResult :=
  if sig = SIGSEGV.num then
    if memory > cond.memoryLimit then .kMLE else .kRE
  else if sig = SIGALRM.num ∨ sig = SIGXCPU.num then .kTLE
  else .kRE

/-- The comparison with the limits that `WaitExit` and `TraceLoop` both make. -/
def limitResult (cond : ExecuteCondtion) (time memory : UInt32) : JudgeResult :=
  if time > cond.timeLimit then .kTLE
  else if memory > cond.memoryLimit then .kMLE
  else .kAC

/-- What the body of the loop of `TraceLoop` does with one event. -/
inductive TraceStep
  /-- `PTRACE_SYSCALL`, and round the loop again. -/
  | resume
  /-- `PTRACE_KILL`, `waitpid` and `return kError`. -/
  | kill (results : Results)
  /-- The `break`, with the results computed after the loop. -/
  | finish (results : Results)
  deriving DecidableEq

section Judge
variable (pagesize : ℤ) (cond : ExecuteCondtion) (limit : CallLimit)

def exitResults (resource : Rusage) : Results :=
  let time := timeUsed resource
  let memory := memoryUsed pagesize cond.memoryAdd resource
  { timeUsed := time, memoryUsed := memory, judgeResult := limitResult cond time memory }

def signalResults (sig : ℕ) (resource : Rusage) : Results :=
  let memory := memoryUsed pagesize cond.memoryAdd resource
  { timeUsed := timeUsed resource, memoryUsed := memory
    judgeResult := signalResult cond memory sig, signumResult := sig }

/-- The results of a forbidden system call; this branch does not subtract `memory_add`. -/
def forbiddenResults (resource : Rusage) : Results :=
  { timeUsed := timeUsed resource, memoryUsed := memoryUsed pagesize 0 resource
    judgeResult := .kRE }

def waitExitResults (e : WaitEvent) : Results :=
  if wifsignaled e.status then signalResults pagesize cond (wtermsig e.status) e.resource
  else exitResults pagesize cond e.resource

def traceStep (inSyscall : Bool) (e : WaitEvent) : TraceStep :=
  if wifexited e.status then .finish (exitResults pagesize cond e.resource)
  else if wstopsig e.status ≠ SIGTRAP.num then
    .kill (signalResults pagesize cond (wstopsig e.status) e.resource)
  else if inSyscall && !limit.contains (toInt e.origRax) then
    .kill (forbiddenResults pagesize e.resource)
  else .resume

/-- The answer of the kernel to one round of `wait4` and, at a stop, `PTRACE_GETREGS`. -/
inductive Answer
  | event (e : WaitEvent)
  | wait4Error (errno : Errno)
  | getregsError (errno : Errno)
  deriving DecidableEq

inductive Request
  | ptraceSyscall
  | ptraceKill
  deriving DecidableEq

/-- The `ptrace` requests of a call of `TraceLoop`, each with the event it answers, and how
the call ends. -/
structure TraceRun where
  requests : List (WaitEvent × Request)
  result : Call (ReturnCode × Results)

def TraceRun.cons (e : WaitEvent) (run : TraceRun) : TraceRun :=
  { run with requests := (e, .ptraceSyscall) :: run.requests }

/-- `TraceLoop` on the answers to come; `in_syscall` is a local variable of the source. -/
def traceLoop : Bool → List Answer → TraceRun
  | _, [] => ⟨[], .error .blocked⟩
  | _, .wait4Error errno :: _ => ⟨[], printError "wait4 WSTOPPED error" errno⟩
  | _, .getregsError errno :: _ => ⟨[], printError "ptrace getregs error" errno⟩
  | inSyscall, .event e :: rest =>
    match traceStep pagesize cond limit inSyscall e with
    | .resume => (traceLoop true rest).cons e
    | .kill results => ⟨[(e, .ptraceKill)], .ok (.kError, results)⟩
    | .finish results => ⟨[], .ok (.kOk, results)⟩

/-- `WaitExit` makes one call of `wait4`. Where that fails the source goes on and reads an
uninitialised status. -/
def waitExit : List Answer → Call Results
  | [] => .error .blocked
  | .event e :: _ => .ok (waitExitResults pagesize cond e)
  | _ => .error .undefined

/-- What the kernel answers to the calls that `Judge::Run` makes about its child. -/
structure Child where
  vforkError : Option Errno
  answers : List Answer

/-- The branch of `Run` for the parent, beside a child that comes to its program. What becomes of
the others is said where the child is made (`ChildFate.child`). -/
def Judge.run (child : Child) : Call (ReturnCode × Results) :=
  match child.vforkError with
  | some errno => printError "vfork error" errno
  | none =>
    if cond.trace then (traceLoop pagesize cond limit false child.answers).result
    else do
      let results ← waitExit pagesize cond child.answers
      return (.kOk, results)

end Judge

/-- How a child ends. -/
inductive Fate
  | exited (code : UInt8)
  | signaled (sig : Signal) (core : Bool)
  deriving DecidableEq

def Fate.exits : Fate → Bool
  | exited _ => true
  | signaled _ _ => false

structure Stop where
  sig : Signal
  origRax : UInt64
  resource : Rusage
  deriving DecidableEq

/-- A child that runs to its end, whatever it does on the way: the stops a tracer is shown,
and what the last `wait4` reports. -/
structure Ended where
  stops : List Stop
  fate : Fate
  resource : Rusage
  deriving DecidableEq

namespace Ended

def fateEvent (run : Ended) : WaitEvent :=
  match run.fate with
  | .exited code => .exited code run.resource
  | .signaled sig core => .signaled sig core run.resource

def stopEvents (run : Ended) : List WaitEvent :=
  run.stops.map (fun s => .stopped s.sig s.origRax s.resource)

/-- A child that is not traced is not stopped, and `wait4` reports only its end. -/
def events (trace : Bool) (run : Ended) : List WaitEvent :=
  (if trace then run.stopEvents else []) ++ [run.fateEvent]

def child (trace : Bool) (run : Ended) : Child := ⟨none, (run.events trace).map .event⟩

end Ended

end OnlineJudge
