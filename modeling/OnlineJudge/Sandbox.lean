import OnlineJudge.Policing
import OnlineJudge.Transition

/-! All the tasks of one submission. `TraceLoop` waits for the child of `vfork` and sets no option
of `ptrace`, so a task that the child creates runs without a tracer. -/
namespace OnlineJudge
open Posix Transition

/-- The ways from a 64-bit program into the kernel. Each has its own numbers, and `orig_rax`,
where `TraceLoop` reads one, does not tell them apart. -/
inductive Entry
  | syscall
  /-- `int 0x80`, with the numbers of 32-bit programs. -/
  | int80
  deriving DecidableEq

structure SystemCall where
  entry : Entry
  nr : UInt64

/-- The numbers of `clone`, `fork`, `vfork` and `clone3`. -/
def creatingCalls : Entry → List ℤ
  | .syscall => [56, 57, 58, 435]
  | .int80 => [120, 2, 190, 435]

/-- A kernel without 32-bit emulation makes nothing of an `int 0x80`. -/
def createsTask (emulation : Bool) (call : SystemCall) : Bool :=
  (call.entry = .syscall || emulation) && (creatingCalls call.entry).contains (toInt call.nr)

/-- The child with its tracer, the tasks that were created and still run, and the system calls
that any of them has executed since the exec stop. -/
structure Group where
  session : Session := {}
  others : ℕ := 0
  made : List SystemCall := []

inductive GroupAction
  /-- If the move is a system call, then by this entry. -/
  | move (m : Move) (entry : Entry)
  /-- A task that is not traced makes a system call. -/
  | call (call : SystemCall)
  /-- A task that is not traced ends. -/
  | leave

section Steps
variable (pagesize : ℤ) (cond : ExecuteCondtion) (limit : CallLimit)

/-- The system call that the child goes on to execute after this move. -/
def Session.executes (s : Session) (m : Move) : List UInt64 :=
  if traceStep pagesize cond limit s.inSyscall m.event = .resume then m.entered else []

def Group.move (creates : SystemCall → Bool) (g : Group) (m : Move) (entry : Entry) : Group :=
  let calls := (g.session.executes pagesize cond limit m).map (⟨entry, ·⟩)
  { session := g.session.after pagesize cond limit m
    others := g.others+calls.countP creates
    made := g.made ++ calls }

def Group.call (creates : SystemCall → Bool) (g : Group) (call : SystemCall) : Group :=
  { g with others := g.others+[call].countP creates, made := g.made ++ [call] }

/-- The tasks that are not traced go on whether `TraceLoop` has returned or not. -/
def Group.Steps (creates : SystemCall → Bool) (g : Group) (a : GroupAction) (g' : Group) :
    Prop :=
  match a with
  | .move m entry => g.session.outcome = none ∧ m.enabled g.session.task = true ∧
      g' = g.move pagesize cond limit creates m entry
  | .call call => 0 < g.others ∧ g' = g.call creates call
  | .leave => 0 < g.others ∧ g' = { g with others := g.others-1 }

/-- In every run every system call of the submission has a permitted number, and when `TraceLoop`
returns no task of it is left. -/
def Contained (creates : SystemCall → Bool) : Prop :=
  ∀ (acts : List GroupAction) (g : Group),
    Run (Group.Steps pagesize cond limit creates) {} acts g →
    (∀ call ∈ g.made, toInt call.nr ∈ limit) ∧ (g.session.outcome ≠ none → g.others = 0)

theorem after_executed (s : Session) (m : Move) :
    (s.after pagesize cond limit m).executed =
      s.executed ++ s.executes pagesize cond limit m := by
  unfold Session.after Session.executes
  cases traceStep pagesize cond limit s.inSyscall m.event <;> simp

/-- The child is alone, and what the submission has executed is what the child has. -/
structure Group.Alone (g : Group) : Prop where
  others : g.others = 0
  made : g.made.map SystemCall.nr = g.session.executed
  reachable : Session.Reachable pagesize cond limit g.session

variable {pagesize cond limit} {creates : SystemCall → Bool}

/-- No permitted number is that of a call which creates a task, by any entry. -/
def CreatesNothing (limit : CallLimit) (creates : SystemCall → Bool) : Prop :=
  ∀ call : SystemCall, toInt call.nr ∈ limit → creates call = false

theorem alone_move (hnone : CreatesNothing limit creates) {g : Group} {m : Move}
    (entry : Entry) (hg : g.Alone pagesize cond limit) (hrun : g.session.outcome = none)
    (hm : m.enabled g.session.task = true) :
    (g.move pagesize cond limit creates m entry).Alone pagesize cond limit := by
  have hreach : Session.Reachable pagesize cond limit (g.session.after pagesize cond limit m) :=
    hg.reachable.tail (.move g.session m hrun hm)
  have hpoliced := session_reachable_policed pagesize cond limit hreach
  have hcount : ((g.session.executes pagesize cond limit m).map
      (SystemCall.mk entry)).countP creates = 0 := by
    rw [List.countP_eq_zero]
    intro call hcall
    obtain ⟨nr, hnr, rfl⟩ := List.mem_map.mp hcall
    -- the tracer lets the child execute this call, so its number is permitted
    have hmem : nr ∈ (g.session.after pagesize cond limit m).executed := by
      rw [after_executed]
      exact List.mem_append_right _ hnr
    have hfalse := hnone ⟨entry, nr⟩ (hpoliced.executed nr hmem)
    simp [hfalse]
  constructor
  · simp only [Group.move, hg.others, hcount]
  · simp only [Group.move, List.map_append, hg.made, after_executed, List.map_map]
    exact congrArg _ (List.map_id _)
  · exact hreach

theorem alone_step (hnone : CreatesNothing limit creates) {g g' : Group}
    {a : GroupAction} (hg : g.Alone pagesize cond limit)
    (hstep : Group.Steps pagesize cond limit creates g a g') :
    g'.Alone pagesize cond limit := by
  -- there is no other task that could make the step
  have halone := hg.others
  cases a with
  | move m entry =>
    obtain ⟨hrun, hm, rfl⟩ := hstep
    exact alone_move hnone entry hg hrun hm
  | call call =>
    have hpos : 0 < g.others := hstep.1
    omega
  | leave =>
    have hpos : 0 < g.others := hstep.1
    omega

theorem contained_of_none (hnone : CreatesNothing limit creates) :
    Contained pagesize cond limit creates := by
  intro acts g hrun
  have hstart : ({} : Group).Alone pagesize cond limit :=
    ⟨rfl, rfl, Relation.ReflTransGen.refl⟩
  have hend : g.Alone pagesize cond limit :=
    hrun.invariant (Group.Alone pagesize cond limit) hstart
      (fun _ _ _ hg hstep => alone_step hnone hg hstep)
  constructor
  · intro call hcall
    have hmem : call.nr ∈ g.session.executed := by
      rw [← hend.made]
      exact List.mem_map_of_mem hcall
    exact (session_reachable_policed pagesize cond limit hend.reachable).executed _ hmem
  · exact fun _ => hend.others

section Escape

def noUsage : Rusage := ⟨0, 0, 0⟩

/-- The child after its exec stop makes one system call, and is then killed. -/
def escapeMoves (call : SystemCall) : List GroupAction :=
  [.move (.execStop 59 noUsage) .syscall, .move (.syscall call.nr noUsage) call.entry,
    .move (.death SIGKILL false noUsage) .syscall]

theorem execStop_session : (({} : Group).move pagesize cond limit creates
    (.execStop 59 noUsage) .syscall).session =
      { task := .user, inSyscall := true, events := [.stopped SIGTRAP 59 noUsage] } := by
  have hfirst : traceStep pagesize cond limit false (.stopped SIGTRAP 59 noUsage) = .resume := by
    rw [traceStep_trap]
    simp
  simp [Group.move, Session.after, Move.event, hfirst, Move.resumed, Move.entered]

variable (pagesize cond) in
/-- A child that is permitted to create a task does so, and the task outlives it. -/
theorem creating_escapes {call : SystemCall} (hmem : toInt call.nr ∈ limit)
    (hcreates : creates call = true) :
    ∃ g : Group, Run (Group.Steps pagesize cond limit creates) {} (escapeMoves call) g ∧
      g.session.outcome ≠ none ∧ g.others = 1 := by
  -- the stop after `execve`, the entry into the call, and the death of the tracee
  let started := ({} : Group).move pagesize cond limit creates (.execStop 59 noUsage) .syscall
  let entered := started.move pagesize cond limit creates (.syscall call.nr noUsage) call.entry
  have hstarted : started.session =
      { task := .user, inSyscall := true, events := [.stopped SIGTRAP 59 noUsage] } :=
    execStop_session
  have hothers : started.others = 0 := by
    simp [started, Group.move, Session.executes, Move.entered]
  have hresume : traceStep pagesize cond limit started.session.inSyscall
      (Move.syscall call.nr noUsage).event = .resume := by
    simp [hstarted, Move.event, traceStep_entry, hmem]
  have hentered : entered.session.task = .kernel call.nr ∧ entered.session.outcome = none ∧
      entered.others = 1 := by
    refine ⟨?_, ?_, ?_⟩
    · simp [entered, Group.move, Session.after, hresume, Move.resumed]
    · simp [entered, Group.move, Session.after, hresume]
    · simp [entered, Group.move, Session.executes, hresume, hothers, Move.entered, hcreates]
  refine ⟨entered.move pagesize cond limit creates (.death SIGKILL false noUsage) .syscall,
    ?_, ?_, ?_⟩
  · refine .cons ⟨rfl, rfl, rfl⟩ (.cons ⟨?_, ?_, rfl⟩ (.single ⟨hentered.2.1, ?_, rfl⟩))
    · exact congrArg Session.outcome hstarted
    · have htask : started.session.task = .user := congrArg Session.task hstarted
      change Move.enabled started.session.task (.syscall call.nr noUsage) = true
      rw [htask]
      rfl
    · rw [hentered.1]
      rfl
  · simp [Group.move, Session.after, Move.event]
  · simp [Group.move, Session.executes, Move.event, hentered.2.2]

/-- A whitelist contains its submission exactly when no permitted system call creates a task. -/
theorem contained_iff (pagesize : ℤ) (cond : ExecuteCondtion) (limit : CallLimit)
    (creates : SystemCall → Bool) :
    Contained pagesize cond limit creates ↔ CreatesNothing limit creates := by
  constructor
  · intro hcontained call hmem
    by_contra hcreates
    have hcreates : creates call = true := by simpa using hcreates
    obtain ⟨g, hrun, hout, hone⟩ :=
      creating_escapes pagesize cond hmem hcreates
    have hzero := (hcontained _ g hrun).2 hout
    omega
  · exact contained_of_none

end Escape

end Steps

section Languages

/-- The numbers that create a task on a kernel with or without 32-bit emulation. -/
def creatingNumbers (emulation : Bool) : List ℤ :=
  creatingCalls .syscall ++ if emulation then creatingCalls .int80 else []

theorem createsTask_iff (emulation : Bool) (limit : CallLimit) :
    CreatesNothing limit (createsTask emulation) ↔ ∀ x ∈ creatingNumbers emulation, x ∉ limit := by
  constructor
  · intro hnone x hx hmem
    -- each of these numbers is what `orig_rax` holds, and some entry takes it
    have hall : ∀ x ∈ creatingNumbers emulation, toInt (UInt64.ofNat x.toNat) = x ∧
        ∃ entry, createsTask emulation ⟨entry, UInt64.ofNat x.toNat⟩ = true := by
      cases emulation with
      | true =>
        have hsyscall : ∀ x ∈ creatingCalls .syscall, toInt (UInt64.ofNat x.toNat) = x ∧
            createsTask true ⟨.syscall, UInt64.ofNat x.toNat⟩ = true := by decide +kernel
        have hint80 : ∀ x ∈ creatingCalls .int80, toInt (UInt64.ofNat x.toNat) = x ∧
            createsTask true ⟨.int80, UInt64.ofNat x.toNat⟩ = true := by decide +kernel
        intro x hx
        rcases List.mem_append.mp hx with hx | hx
        · exact ⟨(hsyscall x hx).1, .syscall, (hsyscall x hx).2⟩
        · exact ⟨(hint80 x hx).1, .int80, (hint80 x hx).2⟩
      | false =>
        have hsyscall : ∀ x ∈ creatingNumbers false, toInt (UInt64.ofNat x.toNat) = x ∧
            createsTask false ⟨.syscall, UInt64.ofNat x.toNat⟩ = true := by decide +kernel
        exact fun x hx => ⟨(hsyscall x hx).1, .syscall, (hsyscall x hx).2⟩
    obtain ⟨hnumber, entry, hcreates⟩ := hall x hx
    have hfalse := hnone ⟨entry, UInt64.ofNat x.toNat⟩ (by rwa [hnumber])
    simp [hcreates] at hfalse
  · intro hnone call hmem
    by_contra hcreates
    have hcreates : createsTask emulation call = true := by simpa using hcreates
    apply hnone _ ?_ hmem
    cases call with
    | mk entry nr =>
      cases entry with
      | syscall =>
        have hx : toInt nr ∈ creatingCalls .syscall := by simpa [createsTask] using hcreates
        exact List.mem_append_left _ hx
      | int80 =>
        obtain ⟨rfl, hx⟩ : emulation = true ∧ toInt nr ∈ creatingCalls .int80 := by
          simpa [createsTask] using hcreates
        exact List.mem_append_right _ hx

/-- Where the kernel has no entry but `syscall`, everything that a traced submission in C, C++ or
Python does is policed, and it is over when its verdict is there. In Java and Ruby a submission
can start a task that is neither; and by `int 0x80`, where 2 is not `open` but `fork`, one in any
language can. -/
theorem submission_contained_iff (pagesize : ℤ) (cond : ExecuteCondtion) (judger : Judger)
    (emulation : Bool) :
    Contained pagesize (judger.executeCondtion cond) judger.getCallLimit (createsTask emulation) ↔
      emulation = false ∧ (judger = .judgeC ∨ judger = .judgeCpp ∨ judger = .judgePython) := by
  rw [contained_iff, createsTask_iff]
  cases emulation <;> cases judger <;> decide

end Languages

end OnlineJudge
