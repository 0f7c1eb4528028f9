import OnlineJudge.JudgeVerdict

/-! A traced task and its tracer together. The program chooses what the task does next; the
kernel reports it to `wait4`, with a stop at the entry of every system call and another at
its return, and `TraceLoop` answers. -/
namespace OnlineJudge
open Posix

inductive Task
  /-- It has asked to be traced and is still to execute the program. -/
  | spawned
  | user
  | kernel (nr : UInt64)
  | gone
  deriving DecidableEq

/-- What the task does until the next report of `wait4`. -/
inductive Move
  | execStop (origRax : UInt64) (resource : Rusage)
  | execFail (code : UInt8) (resource : Rusage)
  | syscall (nr : UInt64) (resource : Rusage)
  | sysret (origRax : UInt64) (resource : Rusage)
  | signal (sig : Signal) (origRax : UInt64) (resource : Rusage)
  | exit (code : UInt8) (resource : Rusage)
  | death (sig : Signal) (core : Bool) (resource : Rusage)
  deriving DecidableEq

namespace Move

def event : Move → WaitEvent
  | execStop origRax resource => .stopped SIGTRAP origRax resource
  | execFail code resource => .exited code resource
  | syscall nr resource => .stopped SIGTRAP nr resource
  | sysret origRax resource => .stopped SIGTRAP origRax resource
  | signal sig origRax resource => .stopped sig origRax resource
  | exit code resource => .exited code resource
  | death sig core resource => .signaled sig core resource

/-- Only `SIGKILL` is not shown to the tracer before it is delivered. -/
def enabled : Task → Move → Bool
  | .spawned, execStop _ _ => true
  | .spawned, execFail _ _ => true
  | .user, syscall _ _ => true
  | .user, signal sig _ _ => sig ≠ SIGKILL
  | .kernel _, sysret _ _ => true
  | .kernel _, exit _ _ => true
  | .gone, death _ _ _ => false
  | _, death _ _ _ => true
  | _, _ => false

/-- The system call at whose entry the task is stopped. -/
def entered : Move → List UInt64
  | syscall nr _ => [nr]
  | _ => []

def resumed : Move → Task
  | execStop _ _ => .user
  | syscall nr _ => .kernel nr
  | sysret _ _ => .user
  | signal _ _ _ => .user
  | _ => .gone

end Move

/-- The task and `TraceLoop`, with the reports made so far, the system calls attempted after
the exec stop, and those that the kernel went on to execute. -/
structure Session where
  task : Task := .spawned
  inSyscall : Bool := false
  outcome : Option (ReturnCode × Results) := none
  events : List WaitEvent := []
  attempted : List UInt64 := []
  executed : List UInt64 := []

section Session
variable (pagesize : ℤ) (cond : ExecuteCondtion) (limit : CallLimit)

/-- A system call is executed when the task is resumed from its entry stop. A killed task
executes nothing more. -/
def Session.after (s : Session) (m : Move) : Session :=
  match traceStep pagesize cond limit s.inSyscall m.event with
  | .resume =>
    { task := m.resumed, inSyscall := true, outcome := none, events := s.events ++ [m.event]
      attempted := s.attempted ++ m.entered, executed := s.executed ++ m.entered }
  | .kill results =>
    { task := .gone, inSyscall := s.inSyscall, outcome := some (.kError, results)
      events := s.events ++ [m.event], attempted := s.attempted ++ m.entered
      executed := s.executed }
  | .finish results =>
    { task := .gone, inSyscall := s.inSyscall, outcome := some (.kOk, results)
      events := s.events ++ [m.event], attempted := s.attempted ++ m.entered
      executed := s.executed }

inductive Session.Step : Session → Session → Prop
  | move (s : Session) (m : Move) (hrun : s.outcome = none) (hm : m.enabled s.task = true) :
      Session.Step s (s.after pagesize cond limit m)

/-- Every state of every run, from the `vfork` on. -/
def Session.Reachable (s : Session) : Prop :=
  Relation.ReflTransGen (Session.Step pagesize cond limit) {} s

def Session.canMake : List Move → Session → Bool
  | [], _ => true
  | m :: rest, s =>
    s.outcome = none && m.enabled s.task && canMake rest (s.after pagesize cond limit m)

theorem session_moves_reachable (moves : List Move) (s : Session)
    (hs : Session.Reachable pagesize cond limit s)
    (h : Session.canMake pagesize cond limit moves s = true) :
    Session.Reachable pagesize cond limit (moves.foldl (Session.after pagesize cond limit) s) := by
  induction moves generalizing s with
  | nil => exact hs
  | cons m rest ih =>
    simp only [Session.canMake, Bool.and_eq_true, decide_eq_true_eq] at h
    obtain ⟨⟨hrun, hm⟩, hrest⟩ := h
    exact ih _ (hs.tail (.move s m hrun hm)) hrest

/-- What `TraceLoop` has still to do with the answers after those of the session. -/
def Session.continuation (s : Session) (rest : List Answer) : Call (ReturnCode × Results) :=
  match s.outcome with
  | none => (traceLoop pagesize cond limit s.inSyscall rest).result
  | some o => .ok o

structure Session.Policed (s : Session) : Prop where
  traced : s.outcome = none → s.task ≠ .spawned → s.inSyscall = true
  executed : ∀ nr ∈ s.executed, toInt nr ∈ limit
  refused : (∃ nr ∈ s.attempted, toInt nr ∉ limit) →
    ∃ results, s.outcome = some (.kError, results) ∧ results.judgeResult = .kRE
  loop : ∀ rest, (traceLoop pagesize cond limit false (s.events.map .event ++ rest)).result =
    s.continuation pagesize cond limit rest

theorem session_start_policed : Session.Policed pagesize cond limit {} where
  traced := by simp
  executed := by simp
  refused := by simp
  loop := by simp [Session.continuation]

theorem enabled_entered (s : Session) (m : Move) (hm : m.enabled s.task = true) :
    m.entered = [] ∨ ∃ nr resource, m = .syscall nr resource ∧ s.task = .user := by
  cases m with
  | syscall nr resource =>
    right
    cases htask : s.task <;> simp_all [Move.enabled]
  | _ => exact Or.inl rfl

theorem session_loop_step (s : Session) (m : Move) (hrun : s.outcome = none)
    (hloop : ∀ rest,
      (traceLoop pagesize cond limit false (s.events.map .event ++ rest)).result =
        s.continuation pagesize cond limit rest) (rest : List Answer) :
    (traceLoop pagesize cond limit false
      ((s.after pagesize cond limit m).events.map .event ++ rest)).result =
        (s.after pagesize cond limit m).continuation pagesize cond limit rest := by
  have hnext := hloop (.event m.event :: rest)
  simp only [Session.continuation, hrun] at hnext
  unfold Session.after Session.continuation
  cases hstep : traceStep pagesize cond limit s.inSyscall m.event <;>
    simp [hnext, traceLoop, hstep, TraceRun.cons]

/-- At the entry of a system call after the exec stop, the tracer resumes the task only if
the call is permitted, and otherwise kills it with `kRE`. -/
theorem traceStep_entry (nr : UInt64) (resource : Rusage) :
    traceStep pagesize cond limit true (.stopped SIGTRAP nr resource) =
      if toInt nr ∈ limit then .resume else .kill (forbiddenResults pagesize resource) := by
  rw [traceStep_trap]
  by_cases h : toInt nr ∈ limit <;> simp [h]

theorem session_step_policed {s s' : Session} (hs : Session.Policed pagesize cond limit s)
    (hstep : Session.Step pagesize cond limit s s') : Session.Policed pagesize cond limit s' := by
  obtain ⟨m, hrun, hm⟩ := hstep
  -- a session that still runs has attempted nothing that is refused
  have hclean : ∀ nr ∈ s.attempted, toInt nr ∈ limit := by
    intro nr hnr
    by_contra hno
    obtain ⟨results, hout, _⟩ := hs.refused ⟨nr, hnr, hno⟩
    simp [hrun] at hout
  refine ⟨?_, ?_, ?_, session_loop_step pagesize cond limit s m hrun hs.loop⟩
  · unfold Session.after
    cases traceStep pagesize cond limit s.inSyscall m.event <;> simp
  all_goals
    rcases enabled_entered s m hm with hnone | ⟨nr, resource, rfl, huser⟩
  -- outside an entry stop nothing is attempted or executed
  · unfold Session.after
    cases traceStep pagesize cond limit s.inSyscall m.event <;> simpa [hnone] using hs.executed
  -- at an entry stop `in_syscall` is set, so the call is looked up
  · have hflag := hs.traced hrun (by simp [huser])
    unfold Session.after
    rw [hflag, Move.event, traceStep_entry]
    split_ifs with hmem
    · intro nr' hnr'
      rcases List.mem_append.mp hnr' with hold | hnew
      · exact hs.executed nr' hold
      · simpa [List.mem_singleton.mp hnew] using hmem
    · exact hs.executed
  · rintro ⟨nr, hnr, hno⟩
    have hold : nr ∈ s.attempted := by
      unfold Session.after at hnr
      cases hstep : traceStep pagesize cond limit s.inSyscall m.event <;>
        simpa [hstep, hnone] using hnr
    exact absurd (hclean nr hold) hno
  · have hflag := hs.traced hrun (by simp [huser])
    unfold Session.after
    rw [hflag, Move.event, traceStep_entry]
    split_ifs with hmem
    · rintro ⟨nr', hnr', hno⟩
      rcases List.mem_append.mp hnr' with hold | hnew
      · exact absurd (hclean nr' hold) hno
      · exact absurd (by simpa [List.mem_singleton.mp hnew] using hmem) hno
    · exact fun _ => ⟨_, rfl, rfl⟩

theorem session_reachable_policed {s : Session}
    (h : Session.Reachable pagesize cond limit s) : Session.Policed pagesize cond limit s := by
  induction h with
  | refl => exact session_start_policed pagesize cond limit
  | tail _ hstep ih => exact session_step_policed pagesize cond limit ih hstep

/-- How a call of `TraceLoop` answers a sequence of events: it resumes the stops of a prefix,
and then waits for more, or kills at one event, or returns at an exit. -/
inductive Answered (run : TraceRun) : List WaitEvent → Prop
  | waits (events : List WaitEvent)
      (hreq : run.requests = events.map (·, .ptraceSyscall))
      (hend : run.result = .error .blocked) : Answered run events
  | kills (before : List WaitEvent) (e : WaitEvent) (after : List WaitEvent) (results : Results)
      (hreq : run.requests = before.map (·, .ptraceSyscall) ++ [(e, .ptraceKill)])
      (hend : run.result = .ok (.kError, results)) : Answered run (before ++ e :: after)
  | returns (before : List WaitEvent) (code : UInt8) (resource : Rusage)
      (after : List WaitEvent) (results : Results)
      (hreq : run.requests = before.map (·, .ptraceSyscall))
      (hend : run.result = .ok (.kOk, results)) :
      Answered run (before ++ .exited code resource :: after)

theorem Answered.cons {run : TraceRun} {events : List WaitEvent} (e : WaitEvent)
    (h : Answered run events) : Answered (run.cons e) (e :: events) := by
  cases h with
  | waits _ hreq hend => exact .waits _ (by simp [TraceRun.cons, hreq]) hend
  | kills before e' after results hreq hend =>
    exact .kills (e :: before) e' after results (by simp [TraceRun.cons, hreq]) hend
  | returns before code resource after results hreq hend =>
    exact .returns (e :: before) code resource after results (by simp [TraceRun.cons, hreq]) hend

theorem traceStep_finish_exited {inSyscall : Bool} {e : WaitEvent} {results : Results}
    (h : traceStep pagesize cond limit inSyscall e = .finish results) :
    ∃ code resource, e = .exited code resource := by
  cases e with
  | exited code resource => exact ⟨code, resource, rfl⟩
  | signaled sig core resource => simp at h
  | stopped sig origRax resource =>
    unfold traceStep at h
    split_ifs at h with hexit
    simp [WaitEvent.status] at hexit

theorem traceLoop_answered (events : List WaitEvent) (inSyscall : Bool) :
    Answered (traceLoop pagesize cond limit inSyscall (events.map .event)) events := by
  induction events generalizing inSyscall with
  | nil => exact .waits [] rfl rfl
  | cons e events ih =>
    cases hstep : traceStep pagesize cond limit inSyscall e with
    | resume =>
      simpa only [List.map_cons, traceLoop, hstep] using (ih true).cons e
    | kill results =>
      exact .kills [] e events results (by simp [traceLoop, hstep]) (by simp [traceLoop, hstep])
    | finish results =>
      obtain ⟨code, resource, rfl⟩ := traceStep_finish_exited _ _ _ hstep
      exact .returns [] code resource events results (by simp [traceLoop, hstep])
        (by simp [traceLoop, hstep])

/-- `TraceLoop` resumes only `SIGTRAP` stops: the first event, or one at which `orig_rax` is
permitted. -/
theorem traceLoop_resumes (events : List WaitEvent) (inSyscall : Bool) (i : ℕ) (e : WaitEvent)
    (h : (traceLoop pagesize cond limit inSyscall (events.map .event)).requests[i]? =
      some (e, .ptraceSyscall)) :
    ∃ origRax resource, e = .stopped SIGTRAP origRax resource ∧
      ((i = 0 ∧ inSyscall = false) ∨ toInt origRax ∈ limit) := by
  -- `in_syscall` is false for the first stop only, the one after `execve`
  induction events generalizing inSyscall i with
  | nil => simp [traceLoop] at h
  | cons e' events ih =>
    cases hstep : traceStep pagesize cond limit inSyscall e' with
    | kill results => cases i <;> simp [traceLoop, hstep] at h
    | finish results => simp [traceLoop, hstep] at h
    | resume =>
      simp only [List.map_cons, traceLoop, hstep, TraceRun.cons] at h
      cases i with
      | zero =>
        obtain ⟨origRax, resource, rfl, hmem⟩ := (traceStep_resume_iff _ _ _ _ _).mp hstep
        refine ⟨origRax, resource, by simpa using h.symm, ?_⟩
        cases inSyscall with
        | false => exact Or.inl ⟨rfl, rfl⟩
        | true => exact Or.inr (hmem rfl)
      | succ i =>
        obtain ⟨origRax, resource, rfl, hor⟩ := ih true i (by simpa using h)
        exact ⟨origRax, resource, rfl, Or.inr (by simpa using hor)⟩

end Session

end OnlineJudge
