import OnlineJudge.Protocol
import OnlineJudge.Transition

/-! `Log`: every thread writes its lines through a log of its own, into one file and under one
mutex, which the first part of a statement takes and the last one gives back. -/
namespace OnlineJudge

/-- The fields of `struct tm` that are shown. -/
structure Tm where
  year : ℕ
  mon : ℕ
  mday : ℕ
  hour : ℕ
  min : ℕ
  sec : ℕ
  deriving DecidableEq

/-- The format `%02d`. -/
def twoDigits (n : ℕ) : String := if n < 10 then "0" ++ toString n else toString n

def timePrefix (tm : Tm) : Bytes :=
  str ("[" ++ toString (tm.year+1900) ++ "-" ++ twoDigits (tm.mon+1) ++ "-" ++ twoDigits tm.mday ++
    " " ++ twoDigits tm.hour ++ ":" ++ twoDigits tm.min ++ ":" ++ twoDigits tm.sec ++ "] ")

/-- The stream behind `out_` appends to the file; `out` is what it has buffered. -/
structure Log where
  isPrefix : Bool := false
  isTimePrefix : Bool := true
  name : Option Bytes := none
  out : Option Bytes := none
  isLock : Bool := false
  deriving DecidableEq

namespace Log

def setLog (log : Log) : Log := { log with out := some [] }

/-- The name is `prefix_` of the source. -/
def setPrefix (log : Log) (name : Bytes) : Log := { log with name := some name, isPrefix := true }

def endl (log : Log) : Log :=
  { log with isPrefix := log.isPrefix || log.name.isSome, isTimePrefix := true }

def bracketed (name : Bytes) : Bytes := str "[" ++ name ++ str "] "

/-- What is written in front of the data; `isPrefix` is set only where there is a name. -/
def opening (log : Log) (tm : Tm) : Bytes :=
  (if log.isTimePrefix then timePrefix tm else []) ++
    if log.isPrefix then bracketed (log.name.getD []) else []

/-- The body of `<<` behind `lockofLog`. -/
def insert (log : Log) (tm : Tm) (data : Bytes) : Log :=
  match log.out with
  | none => log
  | some buffer =>
    { log with
      isTimePrefix := false
      isPrefix := false
      out := some (buffer ++ log.opening tm ++ data) }

/-- The stream writes this much of its buffer to the file. -/
def drain (log : Log) (count : ℕ) : Bytes × Log :=
  match log.out with
  | none => ([], log)
  | some buffer => (buffer.take count, { log with out := some (buffer.drop count) })

/-- The body of `<<` for the result of `endl`, up to `unLockofLog`: `endFunc` and `flush`. -/
def finish (log : Log) : Bytes × Log :=
  match log.out with
  | none => ([], log)
  | some buffer => (buffer ++ [10], { log with out := some [] })

theorem insert_drain {log : Log} {buffer : Bytes} (hout : log.out = some buffer) (tm : Tm)
    (data : Bytes) (count : ℕ) :
    (log.insert tm data).drain count =
      ((buffer ++ log.opening tm ++ data).take count,
        { log with
          isTimePrefix := false
          isPrefix := false
          out := some ((buffer ++ log.opening tm ++ data).drop count) }) := by
  simp [insert, drain, hout]

theorem finish_some {log : Log} {buffer : Bytes} (hout : log.out = some buffer) :
    log.finish = (buffer ++ [10], { log with out := some [] }) := by
  simp [finish, hout]

end Log

inductive LogCall
  | endl
  | chunk (data : Bytes)
  /-- `<<` with what `endl` has returned. -/
  | finish
  deriving DecidableEq

/-- When the compiler evaluates the argument `log.endl()` of the last `<<`. -/
inductive EvalOrder
  | before
  | after
  deriving DecidableEq

/-- A statement `log << c1 << ... << ck << log.endl()`. -/
structure Statement where
  chunks : List Bytes
  nonempty : chunks ≠ []

namespace EvalOrder

def early : EvalOrder → List LogCall
  | before => [.endl]
  | after => []

/-- What follows the chain of chunks. -/
def late : EvalOrder → List LogCall
  | before => [.finish]
  | after => [.endl, .finish]

end EvalOrder

def Statement.calls (order : EvalOrder) (st : Statement) : List LogCall :=
  order.early ++ st.chunks.map .chunk ++ order.late

/-- The threads with their logs, the calls that each has still to make, the mutex with its owner
and the file. -/
structure LogState (ι : Type) where
  logs : ι → Log
  todo : ι → List LogCall
  mutex : Option ι := none
  file : Bytes := []
  /-- A thread has locked a mutex that it holds, or unlocked one that it does not hold. -/
  undefined : Bool := false

/-- Thread `i` makes its next call, at the time `tm`; a stream whose buffer is full writes the
first `drained` bytes of it. -/
structure LogAction (ι : Type) where
  i : ι
  tm : Tm
  drained : ℕ

namespace LogState
variable {ι : Type} [DecidableEq ι]

def setLog (s : LogState ι) (i : ι) (log : Log) : LogState ι :=
  { s with logs := Function.update s.logs i log }

def goOn (s : LogState ι) (i : ι) (rest : List LogCall) : LogState ι :=
  { s with todo := Function.update s.todo i rest }

/-- Nothing where the thread waits for the mutex. -/
def lockofLog (s : LogState ι) (i : ι) : Option (LogState ι) :=
  if (s.logs i).isLock then some s
  else
    match s.mutex with
    | none => some { s.setLog i { s.logs i with isLock := true } with mutex := some i }
    | some owner => if owner = i then some { s with undefined := true } else none

def unLockofLog (s : LogState ι) (i : ι) : LogState ι :=
  if (s.logs i).isLock then
    { s.setLog i { s.logs i with isLock := false } with
      mutex := none
      undefined := s.undefined || decide (s.mutex ≠ some i) }
  else s

@[simp] theorem setLog_self (s : LogState ι) (i : ι) (log : Log) :
    (s.setLog i log).logs i = log := by
  simp [setLog]

theorem setLog_of_ne (s : LogState ι) {i j : ι} (log : Log) (h : j ≠ i) :
    (s.setLog i log).logs j = s.logs j := by
  simp [setLog, h]

@[simp] theorem goOn_self (s : LogState ι) (i : ι) (rest : List LogCall) :
    (s.goOn i rest).todo i = rest := by
  simp [goOn]

theorem goOn_of_ne (s : LogState ι) {i j : ι} (rest : List LogCall) (h : j ≠ i) :
    (s.goOn i rest).todo j = s.todo j := by
  simp [goOn, h]

/-- The log of thread `i` has become `out.2`, and its stream has written `out.1`. -/
def output (s : LogState ι) (i : ι) (out : Bytes × Log) : LogState ι :=
  { s.setLog i out.2 with file := s.file ++ out.1 }

@[simp] theorem goOn_logs (s : LogState ι) (i : ι) (rest : List LogCall) :
    (s.goOn i rest).logs = s.logs := rfl

@[simp] theorem setLog_todo (s : LogState ι) (i : ι) (log : Log) :
    (s.setLog i log).todo = s.todo := rfl

@[simp] theorem output_self (s : LogState ι) (i : ι) (out : Bytes × Log) :
    (s.output i out).logs i = out.2 := setLog_self s i out.2

theorem output_of_ne (s : LogState ι) {i j : ι} (out : Bytes × Log) (h : j ≠ i) :
    (s.output i out).logs j = s.logs j := setLog_of_ne s out.2 h

@[simp] theorem output_todo (s : LogState ι) (i : ι) (out : Bytes × Log) :
    (s.output i out).todo = s.todo := rfl

def step (s : LogState ι) (a : LogAction ι) : Option (LogState ι) :=
  match s.todo a.i with
  | [] => none
  | .endl :: rest => some ((s.goOn a.i rest).setLog a.i (s.logs a.i).endl)
  | .chunk data :: rest => do
    let s ← s.lockofLog a.i
    return (s.goOn a.i rest).output a.i (((s.logs a.i).insert a.tm data).drain a.drained)
  | .finish :: rest =>
    some (((s.goOn a.i rest).output a.i (s.logs a.i).finish).unLockofLog a.i)

def Steps (s : LogState ι) (a : LogAction ι) (t : LogState ι) : Prop := s.step a = some t

theorem lockofLog_held {s : LogState ι} {i : ι} (h : (s.logs i).isLock = true) :
    s.lockofLog i = some s := by
  simp [lockofLog, h]

theorem lockofLog_free {s : LogState ι} {i : ι} (h : (s.logs i).isLock = false)
    (hmutex : s.mutex = none) :
    s.lockofLog i =
      some { s.setLog i { s.logs i with isLock := true } with mutex := some i } := by
  simp [lockofLog, h, hmutex]

theorem lockofLog_waits {s : LogState ι} {i j : ι} (h : (s.logs i).isLock = false)
    (hmutex : s.mutex = some j) (hj : j ≠ i) : s.lockofLog i = none := by
  simp [lockofLog, h, hmutex, hj]

/-- Every thread has set its log and its prefix, and has its statements before it. -/
def start (order : EvalOrder) (names : ι → Bytes) (program : ι → List Statement) :
    LogState ι where
  logs i := ({} : Log).setLog.setPrefix (names i)
  todo i := (program i).flatMap (Statement.calls order)

end LogState

end OnlineJudge
