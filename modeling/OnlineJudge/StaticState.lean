import OnlineJudge.Pool
import OnlineJudge.Runner

/-! The objects with static storage across calls of `Judge::Run`. The child of `vfork` works in
the memory of the server until it executes a program or exits, and it leaves through
`printError`, which calls `exit`. -/
namespace OnlineJudge
open Transition

/-- An object with static storage, before and after its destructor has run. -/
inductive Static (α : Type)
  | alive (value : α)
  | destroyed
  deriving DecidableEq

/-- The maps of `call_limit.hpp` and `protocol.h`, and what has been printed to `stdout` and not
been written yet. -/
structure StaticState where
  callLimitList : Static (List (UInt32 × CallLimit))
  judgeStringResult : Static (List (JudgeResult × String))
  stdout : Bytes
  deriving DecidableEq

namespace StaticState

/-- `call_limit_list[codeType]`; a map that is gone must not be read. -/
def callLimit (s : StaticState) (codeType : CodeType) : Call CallLimit :=
  match s.callLimitList with
  | .alive limits => .ok ((limits.lookup codeType.toUInt32).getD [])
  | .destroyed => .error .undefined

/-- `printf`; `keep` tells what the library goes on buffering. -/
def printf (keep : Bytes → Bytes → Bytes) (s : StaticState) (text : Bytes) : StaticState :=
  { s with stdout := keep s.stdout text }

/-- `exit`: the destructors run, and `stdout` is flushed. -/
def exit (_ : StaticState) : StaticState := ⟨.destroyed, .destroyed, []⟩

/-- The two maps still hold what they were built with. -/
def Alive (s : StaticState) : Prop :=
  (∃ limits, s.callLimitList = .alive limits) ∧ ∃ texts, s.judgeStringResult = .alive texts

end StaticState

/-- `call_limit_list[kTypeC]` and the like, as `getCallLimit` reads them. -/
def Judger.codeType : Judger → CodeType
  | judgeC => .kTypeC
  | judgeCpp => .kTypeCpp
  | judgePython => .kTypePython
  | judgeJava => .kTypeJava
  | judgeRuby => .kTypeRuby

/-- The static objects when the server starts. -/
def StaticState.initial : StaticState where
  callLimitList := .alive [(0, cCallLimit), (1, cppCallLimit), (2, pythonCallLimit),
    (3, javaCallLimit), (7, rubyCallLimit)]
  judgeStringResult := .alive ([.kAC, .kPE, .kTLE, .kMLE, .kWA, .kRE, .kOLE, .kCE, .kSE, .kUKE].map
    (fun r => (r, OnlineJudge.judgeStringResult r)))
  stdout := []

theorem initial_callLimit (judger : Judger) :
    StaticState.initial.callLimit judger.codeType = .ok judger.getCallLimit := by
  cases judger <;> rfl

/-- The answers of the kernel to the child, its call of `execvp` included. -/
structure ExecKernel extends ChildKernel where
  execvp : List String → Option Errno

namespace Judge

/-- The branch of `Run` for the child; it ends in a program or in `printError`. -/
def child (kernel : ExecKernel) (cond : ExecuteCondtion) (io : IOFileno) (cmdArgs : List String)
    (uid : UInt32) : Call Exec := do
  let exec ← runChild kernel.toChildKernel cond io cmdArgs uid
  match kernel.execvp cmdArgs with
  | none => return exec
  | some errno => printError "execvp error" errno

/-- What the child prints about its arguments, behind which the vector has a `NULL`. -/
def childTexts (cmdArgs : List String) (trace : Bool) : List Bytes :=
  [str (toString (cmdArgs.length+1) ++ "\n")] ++
  (cmdArgs ++ ["(null)"]).mapIdx
    (fun i arg => str ("cmd_args[" ++ toString i ++ "] : " ++ arg ++ "\n")) ++
  [str ("trace: " ++ (if trace then "1" else "0") ++ "\n")]

end Judge

/-- One call of `Judge::Run` whose `vfork` succeeds, with what `TraceLoop` or `WaitExit` prints
behind it. -/
structure RunCall where
  kernel : ExecKernel
  cond : ExecuteCondtion
  io : IOFileno
  cmdArgs : List String
  uid : UInt32
  waitTexts : List Bytes

namespace RunCall
variable (keep : Bytes → Bytes → Bytes)

/-- A `dup2` fails, or the runner is root, or `execvp` fails. -/
def ChildFails (c : RunCall) : Prop :=
  ¬ c.kernel.toChildKernel.Redirects c.io ∨ c.cond.runer = 0 ∨
    ∃ errno, c.kernel.execvp c.cmdArgs = some errno

def child (c : RunCall) : Call Exec := Judge.child c.kernel c.cond c.io c.cmdArgs c.uid

/-- What the child leaves in the memory that it shares with its parent. -/
def afterChild (c : RunCall) (s : StaticState) : StaticState :=
  let printed := (Judge.childTexts c.cmdArgs c.cond.trace).foldl (StaticState.printf keep) s
  match c.child with
  | .ok _ => printed
  | .error _ => printed.exit

/-- `Judge::Run`. -/
def after (c : RunCall) (s : StaticState) : StaticState :=
  c.waitTexts.foldl (StaticState.printf keep) (c.afterChild keep s)

end RunCall

/-- The calls of all workers, in the order in which their children are started. -/
def afterCalls (keep : Bytes → Bytes → Bytes) (calls : List RunCall) (s : StaticState) :
    StaticState :=
  calls.foldl (fun s c => c.after keep s) s

section Child
variable {c : RunCall}

theorem setRunner_fails_iff (kernel : ChildKernel) (cond : ExecuteCondtion) (uid : UInt32) :
    (∃ e, Judge.setRunner kernel cond uid = .error e) ↔ cond.runer = 0 := by
  unfold Judge.setRunner
  by_cases hroot : cond.runer = 0
  · simp [hroot, printError]
  · by_cases hdefault : cond.runer = -1
    · simp [hdefault]
    · cases kernel.setuid (UInt32.ofInt cond.runer) <;> simp [hroot, hdefault]

/-- The child fails at one of its three points and nowhere else. -/
theorem child_fails_iff : (∃ e, c.child = .error e) ↔ c.ChildFails := by
  have hio : Judge.setIOEnv c.kernel.toChildKernel c.io = .ok () ↔
      c.kernel.toChildKernel.Redirects c.io := setIOEnv_ok_iff
  have hset := setRunner_fails_iff c.kernel.toChildKernel c.cond c.uid
  unfold RunCall.child Judge.child Judge.runChild RunCall.ChildFails
  -- the child comes to each point only when it has passed those before
  cases hredirect : Judge.setIOEnv c.kernel.toChildKernel c.io with
  | error e =>
    have hno : ¬ c.kernel.toChildKernel.Redirects c.io := hio.not.mp (by simp [hredirect])
    simp [hno]
  | ok u =>
    have hyes := hio.mp hredirect
    cases hrunner : Judge.setRunner c.kernel.toChildKernel c.cond c.uid with
    | error e =>
      have hroot := hset.mp ⟨e, hrunner⟩
      simp [hroot]
    | ok uid =>
      have hroot : ¬ c.cond.runer = 0 := hset.not.mp (by simp [hrunner])
      cases c.kernel.execvp c.cmdArgs <;> simp [hyes, hroot, printError]

end Child

section Frame
variable (keep : Bytes → Bytes → Bytes)

/-- Printing touches neither map. -/
theorem printf_maps (texts : List Bytes) (s : StaticState) :
    (texts.foldl (StaticState.printf keep) s).callLimitList = s.callLimitList ∧
      (texts.foldl (StaticState.printf keep) s).judgeStringResult = s.judgeStringResult := by
  induction texts generalizing s with
  | nil => exact ⟨rfl, rfl⟩
  | cons text rest ih => exact ih (s.printf keep text)

theorem after_succeeds {c : RunCall} (h : ¬ c.ChildFails) (s : StaticState) :
    (c.after keep s).callLimitList = s.callLimitList ∧
      (c.after keep s).judgeStringResult = s.judgeStringResult := by
  have hwait := printf_maps keep c.waitTexts (c.afterChild keep s)
  have hprint := printf_maps keep (Judge.childTexts c.cmdArgs c.cond.trace) s
  rw [← child_fails_iff] at h
  unfold RunCall.after
  cases hchild : c.child with
  | error e => exact absurd ⟨e, hchild⟩ h
  | ok exec =>
    have hafter : c.afterChild keep s =
        (Judge.childTexts c.cmdArgs c.cond.trace).foldl (StaticState.printf keep) s := by
      simp only [RunCall.afterChild, hchild]
    rw [hafter] at hwait ⊢
    exact ⟨hwait.1.trans hprint.1, hwait.2.trans hprint.2⟩

theorem after_fails {c : RunCall} (h : c.ChildFails) (s : StaticState) :
    (c.after keep s).callLimitList = .destroyed ∧
      (c.after keep s).judgeStringResult = .destroyed := by
  have hwait := printf_maps keep c.waitTexts (c.afterChild keep s)
  obtain ⟨e, hchild⟩ := child_fails_iff.mpr h
  unfold RunCall.after
  simpa only [RunCall.afterChild, hchild, StaticState.exit] using hwait

/-- A map that is gone stays gone. -/
theorem afterCalls_destroyed (calls : List RunCall) (s : StaticState)
    (h : s.callLimitList = .destroyed) :
    (afterCalls keep calls s).callLimitList = .destroyed := by
  induction calls generalizing s with
  | nil => exact h
  | cons c rest ih =>
    apply ih
    by_cases hfail : c.ChildFails
    · exact (after_fails keep hfail s).1
    · rw [(after_succeeds keep hfail s).1, h]

/-- The whitelists are there after any number of calls exactly when no child has failed. -/
theorem afterCalls_callLimitList (calls : List RunCall) (s : StaticState)
    {limits : List (UInt32 × CallLimit)} (h : s.callLimitList = .alive limits) :
    (afterCalls keep calls s).callLimitList = .alive limits ↔ ∀ c ∈ calls, ¬ c.ChildFails := by
  induction calls generalizing s with
  | nil => simp [afterCalls, h]
  | cons c rest ih =>
    by_cases hfail : c.ChildFails
    -- nothing builds a map anew
    · have hgone := afterCalls_destroyed keep rest (c.after keep s) (after_fails keep hfail s).1
      refine iff_of_false ?_ (fun hall => hall c (by simp) hfail)
      intro hlimits
      exact absurd (hgone.symm.trans hlimits) (by simp)
    · rw [List.forall_mem_cons, and_iff_right hfail]
      exact ih (c.after keep s) ((after_succeeds keep hfail s).1.trans h)

/-- Calls whose children all come to their programs leave both maps as they were. -/
theorem afterCalls_maps (calls : List RunCall) (s : StaticState)
    (h : ∀ c ∈ calls, ¬ c.ChildFails) :
    (afterCalls keep calls s).callLimitList = s.callLimitList ∧
      (afterCalls keep calls s).judgeStringResult = s.judgeStringResult := by
  induction calls generalizing s with
  | nil => exact ⟨rfl, rfl⟩
  | cons c rest ih =>
    obtain ⟨hfirst, hrest⟩ := List.forall_mem_cons.mp h
    obtain ⟨hlimits, htexts⟩ := after_succeeds keep hfirst s
    obtain ⟨hlimits', htexts'⟩ := ih (c.after keep s) hrest
    exact ⟨hlimits'.trans hlimits, htexts'.trans htexts⟩

/-- A call of `Judge::Run` leaves the static objects of the server as they were, and every later
task reads the whitelist that it read before. -/
def KeepsFrame (c : RunCall) (s : StaticState) : Prop :=
  c.after keep s = s ∧ ∀ later judger,
    (afterCalls keep later (c.after keep s)).callLimit (Judger.codeType judger) =
      s.callLimit (Judger.codeType judger)

/-- No failure of the child leaves the static objects alone: no later task can read a whitelist,
and over any calls the whitelists stay exactly as long as no child fails. -/
theorem failedChild_frame (c : RunCall) (s : StaticState) (halive : s.Alive)
    (hfail : c.ChildFails) :
    ¬ KeepsFrame keep c s ∧
      (∀ later judger,
        (afterCalls keep later (c.after keep s)).callLimit (Judger.codeType judger) =
          .error .undefined) ∧
      ∀ calls, (afterCalls keep calls s).callLimitList = s.callLimitList ↔
        ∀ c' ∈ calls, ¬ c'.ChildFails := by
  obtain ⟨⟨limits, hlimits⟩, _⟩ := halive
  have hgone := (after_fails keep hfail s).1
  refine ⟨?_, ?_, ?_⟩
  · rintro ⟨hsame, _⟩
    rw [hsame, hlimits] at hgone
    exact absurd hgone (by simp)
  · intro later judger
    have hlater := afterCalls_destroyed keep later (c.after keep s) hgone
    simp only [StaticState.callLimit, hlater]
  · intro calls
    rw [hlimits]
    exact afterCalls_callLimitList keep calls s hlimits

end Frame

section NoCompiler

/-- A kernel that finds no program to execute. -/
def emptyKernel : ExecKernel := { willingKernel with execvp := fun _ => some ENOENT }

def javaCall : RunCall where
  kernel := emptyKernel
  cond := ⟨1000, 65536, -1, true, 14336⟩
  io := ⟨3, 4, 5⟩
  cmdArgs := ["java", "-cp", "/tmp/oj/7", "-Xms32m", "-Xmx256m", "Main"]
  uid := 1000
  waitTexts := [str "memory_add: 14336\n"]

theorem javaCall_fails : javaCall.ChildFails := Or.inr (Or.inr ⟨ENOENT, rfl⟩)

theorem initial_alive : StaticState.initial.Alive := ⟨⟨_, rfl⟩, ⟨_, rfl⟩⟩

theorem failedChild_frame_java :
    ¬ KeepsFrame (· ++ ·) javaCall .initial ∧
      (∀ later judger, (afterCalls (· ++ ·) later (javaCall.after (· ++ ·) .initial)).callLimit
        (Judger.codeType judger) = .error .undefined) ∧
      ∀ calls, (afterCalls (· ++ ·) calls .initial).callLimitList =
        StaticState.initial.callLimitList ↔ ∀ c' ∈ calls, ¬ c'.ChildFails :=
  failedChild_frame (· ++ ·) javaCall .initial initial_alive javaCall_fails

/-- Where `java` is not installed, one request in Java destroys the whitelists of all. -/
theorem not_failedChild_keeps :
    ¬ ∀ (keep : Bytes → Bytes → Bytes) (c : RunCall) (s : StaticState), s.Alive →
      c.ChildFails → KeepsFrame keep c s := by
  intro hclaim
  have hkeep := hclaim (· ++ ·) javaCall .initial initial_alive javaCall_fails
  have hgone := (after_fails (· ++ ·) javaCall_fails .initial).1
  rw [hkeep.1] at hgone
  exact absurd hgone (by simp [StaticState.initial])

end NoCompiler

section Test
variable (keep : Bytes → Bytes → Bytes) {c : RunCall}

/-- What the server meets in this child, if the program behind it has this fate. -/
def RunCall.fate (c : RunCall) (program : ChildFate) : ChildFate :=
  match c.child with
  | .ok _ => program
  | .error _ => .failed

theorem fate_failed (program : ChildFate) (h : c.ChildFails) : c.fate program = .failed := by
  obtain ⟨e, hchild⟩ := child_fails_iff.mpr h
  simp only [RunCall.fate, hchild]

theorem fate_program (program : ChildFate) (h : ¬ c.ChildFails) : c.fate program = program := by
  rw [← child_fails_iff] at h
  unfold RunCall.fate
  cases hchild : c.child with
  | error e => exact absurd ⟨e, hchild⟩ h
  | ok exec => rfl

/-- The refusal of root that `childRun` takes from the request is the one of the child. -/
theorem setRunner_fate (c : RunCall) (program : ChildFate) :
    (c.fate program).setRunner c.cond.runer = c.fate program := by
  by_cases hfail : c.ChildFails
  · rw [fate_failed program hfail]
    simp [ChildFate.setRunner]
  · have hroot : c.cond.runer ≠ 0 := fun h => hfail (Or.inr (Or.inl h))
    rw [fate_program program hfail]
    cases program <;> simp [ChildFate.setRunner, hroot]

/-- A test of a program that ends comes to its end exactly when its child leaves the whitelists of
the server alone. -/
theorem execute_returns_iff (host : Host) (judger : Judger) (c : RunCall) (t : TestRun)
    (work : Option Node) (results : Results) (s : StaticState) (halive : s.Alive) :
    (∃ out, judger.execute host.pagesize c.cond ⟨c.fate (.ended t.run), t.userout, work⟩
      t.rightout results = .ok out) ↔ (c.after keep s).callLimitList = s.callLimitList := by
  obtain ⟨⟨limits, hlimits⟩, _⟩ := halive
  -- a child that fails destroys the static maps, and any other leaves them alone
  by_cases hfail : c.ChildFails
  · have hgone := (after_fails keep hfail s).1
    rw [hgone, hlimits, fate_failed _ hfail]
    refine iff_of_false ?_ (by simp)
    rintro ⟨out, hout⟩
    obtain ⟨ended, hended⟩ := execute_returns host judger c.cond _ _ _ hout
    exact absurd hended (by simp)
  · have hreturns := execute_eq_outcome host judger c.cond t
      ⟨c.fate (.ended t.run), t.userout, work⟩ ⟨fate_program _ hfail, rfl⟩ results
    rw [outcome_eq] at hreturns
    exact iff_of_true ⟨_, hreturns⟩ (after_succeeds keep hfail s).1

end Test

section Pool
variable {n : ℕ} {host : Host} {json : Json.Codec}

/-- The call of `Judge::Run` that a worker makes for this test of its job, with the work
directory as the test finds it. -/
abbrev TestCalls (n : ℕ) := Fin n → Job → ℕ → Option Node → RunCall

def Server.runCalls (calls : TestCalls n) (s : Server n) : Action n → List RunCall
  | .advance i =>
    match (s.workers i).phase with
    | .running job _ num _ _ => [calls i job num (s.fs.work job.conf.runId)]
    | _ => []
  | _ => []

/-- Only a worker that is in a test starts a child. -/
theorem runCalls_mem {calls : TestCalls n} {s : Server n} {a : Action n} {c : RunCall}
    (h : c ∈ s.runCalls calls a) : ∃ i job rounds num rightout results, a = .advance i ∧
      (s.workers i).phase = .running job rounds num rightout results ∧
      c = calls i job num (s.fs.work job.conf.runId) := by
  cases a with
  | advance i =>
    cases hphase : (s.workers i).phase with
    | running job rounds num rightout results =>
      have hc : c = calls i job num (s.fs.work job.conf.runId) := by
        simpa [Server.runCalls, hphase] using h
      exact ⟨i, job, rounds, num, rightout, results, rfl, hphase, hc⟩
    | _ => simp [Server.runCalls, hphase] at h
  | _ => simp [Server.runCalls] at h

/-- The children of the tests are those of these calls. -/
def FromCalls (host : Host) (calls : TestCalls n) (s : Server n) (a : Action n) : Prop :=
  ∀ i job rounds num rightout results, a = .advance i →
    (s.workers i).phase = .running job rounds num rightout results →
    ∃ program, (childRun host job.judger job.conf job.tools num
      (s.fs.work job.conf.runId)).fate = (calls i job num (s.fs.work job.conf.runId)).fate program

/-- The pool goes on from no step in which a child fails. -/
theorem step_childFailed {s t : Server n} {i : Fin n} {job : Job} {rounds num : ℕ}
    {rightout : FileView} {results : Results}
    (hphase : (s.workers i).phase = .running job rounds num rightout results)
    (hfate : (childRun host job.judger job.conf job.tools num
      (s.fs.work job.conf.runId)).fate = .failed)
    (hstep : Server.Steps host json s (.advance i) t) : t.exited = true := by
  -- the child has left through `exit`, so the call of `execute` is undefined
  have hexec : executeTest host job.judger job.conf job.tools num rightout results (s.world i) =
      .error .undefined := by
    have hfate' : (childRun host job.judger job.conf job.tools num
        ((s.world i).fs.work job.conf.runId)).fate = .failed := hfate
    simp only [executeTest, Judger.execute, hfate', ChildFate.child, call_error_bind]
  have hadvance : advance host (s.workers i).phase (s.world i) = .error .undefined := by
    rw [hphase]
    simp only [advance, hexec, call_error_bind]
  obtain ⟨_, hcases⟩ := Server.step_cases hstep
  cases hcases with
  | advanced _ p w _ hok =>
    rw [hadvance] at hok
    cases hok
  | failed _ e _ herror =>
    rw [hadvance] at herror
    cases herror
    rfl

/-- As long as the process is there, no child has failed, and every whitelist and every text of a
result is what it was built with. -/
theorem pool_static (keep : Bytes → Bytes → Bytes) {calls : TestCalls n} {s t : Server n}
    {acts : List (Action n)} {events : List RunCall}
    (hobs : Observed (When (FromCalls host calls) (Server.Steps host json))
      (Server.runCalls calls) s acts events t) (halive : t.exited = false) :
    (∀ c ∈ events, ¬ c.ChildFails) ∧
      (∀ judger, (afterCalls keep events .initial).callLimit (Judger.codeType judger) =
        .ok judger.getCallLimit) ∧
      (afterCalls keep events .initial).judgeStringResult =
        StaticState.initial.judgeStringResult := by
  -- a test whose child failed would have been the last step of the process
  have hnone : ∀ c ∈ events, ¬ c.ChildFails := by
    refine hobs.invariant (fun u seen => u.exited = false → ∀ c ∈ seen, ¬ c.ChildFails)
      (by simp) ?_ halive
    intro u a v seen hseen ⟨hfrom, hstep⟩ hv c hc
    have hu : u.exited = false := (Server.step_cases hstep).1
    rcases List.mem_append.mp hc with hc | hc
    · exact hseen hu c hc
    · intro hfail
      obtain ⟨i, job, rounds, num, rightout, results, rfl, hphase, rfl⟩ := runCalls_mem hc
      obtain ⟨program, hfate⟩ := hfrom i job rounds num rightout results rfl hphase
      rw [fate_failed program hfail] at hfate
      exact Bool.false_ne_true (hv.symm.trans (step_childFailed hphase hfate hstep))
  obtain ⟨hlimits, htexts⟩ := afterCalls_maps keep events .initial hnone
  refine ⟨hnone, ?_, htexts⟩
  intro judger
  -- so every later `getCallLimit` finds the maps that the process started with
  rw [← initial_callLimit judger]
  simp only [StaticState.callLimit, hlimits]

end Pool

end OnlineJudge
