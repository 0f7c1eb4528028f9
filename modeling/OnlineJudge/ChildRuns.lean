import OnlineJudge.Sandbox
import OnlineJudge.TraceFlag

/-! Elsewhere the child of a test is a run to its end, whatever it does on the way. Here that
view of it is held against the child under its tracer, move by move and beside the other tasks
of its submission. -/
namespace OnlineJudge
open Posix Transition

/-- A task that is resumed at every stop. -/
def Task.Steps (t : Task) (m : Move) (t' : Task) : Prop := m.enabled t = true ∧ t' = m.resumed

/-- The kernel reports these events of some child that is resumed at every stop. -/
def Ended.Possible (run : Ended) : Prop :=
  ∃ moves, Run Task.Steps .spawned moves .gone ∧ run.events true = moves.map Move.event

section Task
variable {t : Task} {m : Move}

theorem enabled_ne_gone (h : m.enabled t = true) : t ≠ .gone := by
  rintro rfl
  cases m <;> simp [Move.enabled] at h

/-- After a move the task is gone and its end is reported, or it is stopped. -/
theorem move_event (m : Move) :
    (m.resumed = .gone ∧ ∃ run : Ended, run.events true = [m.event]) ∨
      (m.resumed ≠ .gone ∧ ∃ stop : Stop,
        m.event = .stopped stop.sig stop.origRax stop.resource) := by
  cases m with
  | execStop origRax resource =>
    exact Or.inr ⟨by simp [Move.resumed], ⟨_, origRax, resource⟩, rfl⟩
  | execFail code resource => exact Or.inl ⟨rfl, ⟨[], .exited code, resource⟩, rfl⟩
  | syscall nr resource => exact Or.inr ⟨by simp [Move.resumed], ⟨_, nr, resource⟩, rfl⟩
  | sysret origRax resource =>
    exact Or.inr ⟨by simp [Move.resumed], ⟨_, origRax, resource⟩, rfl⟩
  | signal sig origRax resource =>
    exact Or.inr ⟨by simp [Move.resumed], ⟨sig, origRax, resource⟩, rfl⟩
  | exit code resource => exact Or.inl ⟨rfl, ⟨[], .exited code, resource⟩, rfl⟩
  | death sig core resource => exact Or.inl ⟨rfl, ⟨[], .signaled sig core, resource⟩, rfl⟩

/-- The moves of a task up to its end are reported as the stops and the fate of one child. -/
theorem moves_ended (moves : List Move) (t : Task) (ht : t ≠ .gone)
    (hrun : Run Task.Steps t moves .gone) :
    ∃ run : Ended, run.events true = moves.map Move.event := by
  induction moves generalizing t with
  | nil =>
    cases hrun
    exact absurd rfl ht
  | cons m rest ih =>
    cases hrun with
    | cons hstep hrest =>
      obtain ⟨hm, rfl⟩ := hstep
      rcases move_event m with ⟨hgone, run, hevents⟩ | ⟨hstays, stop, hevent⟩
      · -- a task that is gone makes no further move
        rw [hgone] at hrest
        cases hrest with
        | nil => exact ⟨run, hevents⟩
        | cons hnext _ => exact absurd rfl (enabled_ne_gone hnext.1)
      · obtain ⟨run, hevents⟩ := ih m.resumed hstays hrest
        refine ⟨{ run with stops := stop :: run.stops }, ?_⟩
        rw [List.map_cons, ← hevents, hevent]
        rfl

theorem task_dies (ht : t ≠ .gone) : Task.Steps t (.death SIGKILL false noUsage) .gone := by
  refine ⟨?_, rfl⟩
  cases t with
  | gone => exact absurd rfl ht
  | spawned | user | kernel nr => rfl

end Task

section Session
variable {pagesize : ℤ} {cond : ExecuteCondtion} {limit : CallLimit} {s s' : Session}

/-- `TraceLoop` resumes only a task that has stopped. -/
theorem resumed_ne_gone {inSyscall : Bool} {m : Move}
    (h : traceStep pagesize cond limit inSyscall m.event = .resume) : m.resumed ≠ .gone := by
  obtain ⟨origRax, resource, hevent, _⟩ := (traceStep_resume_iff _ _ _ _ _).mp h
  rcases move_event m with ⟨_, run, hevents⟩ | ⟨hstays, _⟩
  · -- the last event of a run is not a stop
    have hlast := congrArg List.getLast? hevents
    simp only [Ended.events, List.getLast?_append, List.getLast?_singleton, Option.some_or,
      Option.some.injEq, hevent] at hlast
    unfold Ended.fateEvent at hlast
    split at hlast <;> simp at hlast
  · exact hstays

/-- The session has made the moves of a task that is resumed at every stop, and while there is
no verdict that task is still there. -/
def Session.Follows (s : Session) : Prop :=
  ∃ moves t, Run Task.Steps .spawned moves t ∧ s.events = moves.map Move.event ∧
    (s.outcome = none → s.task = t ∧ t ≠ .gone)

theorem session_follows_start : ({} : Session).Follows := ⟨[], .spawned, .nil _, rfl, by simp⟩

theorem session_follows_step (hs : s.Follows) (hstep : Session.Step pagesize cond limit s s') :
    s'.Follows := by
  obtain ⟨m, hrun, hm⟩ := hstep
  obtain ⟨moves, t, hmoves, hevents, hlive⟩ := hs
  obtain ⟨rfl, _⟩ := hlive hrun
  have hnext : Run Task.Steps .spawned (moves ++ [m]) m.resumed :=
    hmoves.append (.single ⟨hm, rfl⟩)
  refine ⟨moves ++ [m], m.resumed, hnext, ?_, ?_⟩
  · unfold Session.after
    cases traceStep pagesize cond limit s.inSyscall m.event <;> simp [hevents]
  · unfold Session.after
    cases hstep : traceStep pagesize cond limit s.inSyscall m.event with
    | resume => exact fun _ => ⟨rfl, resumed_ne_gone hstep⟩
    | kill results => simp
    | finish results => simp

theorem reachable_follows (h : Session.Reachable pagesize cond limit s) : s.Follows := by
  induction h with
  | refl => exact session_follows_start
  | tail _ hstep ih => exact session_follows_step ih hstep

/-- A task that the tracer has killed is taken to die by itself at the same point. -/
theorem session_follows_possible (hs : s.Follows) :
    ∃ run : Ended, run.Possible ∧ s.events <+: run.events true := by
  obtain ⟨moves, t, hmoves, hevents, _⟩ := hs
  by_cases ht : t = .gone
  · rw [ht] at hmoves
    obtain ⟨run, hrun⟩ := moves_ended moves .spawned (by simp) hmoves
    refine ⟨run, ⟨moves, hmoves, hrun⟩, ?_⟩
    rw [hrun, hevents]
  · have hdies := hmoves.append (.single (task_dies ht))
    obtain ⟨run, hrun⟩ := moves_ended _ .spawned (by simp) hdies
    refine ⟨run, ⟨_, hdies, hrun⟩, ?_⟩
    rw [hrun, hevents, List.map_append]
    exact List.prefix_append _ _

/-- `Judge::Run` on the reports of a whole child comes to the verdict that the session has come
to on the first of them. -/
theorem run_of_prefix (htrace : cond.trace = true) {o : ReturnCode × Results} {run : Ended}
    (hs : Session.Reachable pagesize cond limit s) (hout : s.outcome = some o)
    (hinitial : s.events <+: run.events true) :
    Judge.run pagesize cond limit (run.child true) = .ok o := by
  obtain ⟨rest, hrest⟩ := hinitial
  have hloop := (session_reachable_policed pagesize cond limit hs).loop (rest.map .event)
  rw [← List.map_append, hrest] at hloop
  simpa [Judge.run, Ended.child, htrace, Session.continuation, hout] using hloop

/-- Whatever the task does up to its end, the tracer comes to a verdict on it. -/
theorem moves_judged (moves : List Move) (s : Session)
    (hs : Session.Reachable pagesize cond limit s) (hout : s.outcome = none)
    (htask : s.task ≠ .gone) (hrun : Run Task.Steps s.task moves .gone) :
    ∃ s' o, Session.Reachable pagesize cond limit s' ∧ s'.outcome = some o ∧
      s'.events <+: s.events ++ moves.map Move.event := by
  -- the loop answers each event in turn; the first that is not resumed is the end of it
  induction moves generalizing s with
  | nil =>
    generalize hend : s.task = t at hrun
    cases hrun
    exact absurd hend htask
  | cons m rest ih =>
    cases hrun with
    | cons hstep hrest =>
      obtain ⟨hm, rfl⟩ := hstep
      have hreach : Session.Reachable pagesize cond limit (s.after pagesize cond limit m) :=
        hs.tail (.move s m hout hm)
      have hevents : (s.after pagesize cond limit m).events = s.events ++ [m.event] := by
        unfold Session.after
        cases traceStep pagesize cond limit s.inSyscall m.event <;> rfl
      have hfirst : s.events ++ [m.event] <+: s.events ++ (m :: rest).map Move.event := by
        have happend := List.prefix_append (s.events ++ [m.event]) (rest.map Move.event)
        rwa [List.append_assoc, List.singleton_append] at happend
      cases hanswer : traceStep pagesize cond limit s.inSyscall m.event with
      | resume =>
        have htask' : (s.after pagesize cond limit m).task = m.resumed := by
          simp [Session.after, hanswer]
        have hnext := ih (s.after pagesize cond limit m) hreach
          (by simp [Session.after, hanswer]) (by rw [htask']; exact resumed_ne_gone hanswer)
          (by rw [htask']; exact hrest)
        rw [hevents, List.append_assoc] at hnext
        exact hnext
      | kill results =>
        refine ⟨_, (.kError, results), hreach, by simp [Session.after, hanswer], ?_⟩
        rw [hevents]
        exact hfirst
      | finish results =>
        refine ⟨_, (.kOk, results), hreach, by simp [Session.after, hanswer], ?_⟩
        rw [hevents]
        exact hfirst

theorem possible_judged {run : Ended} (hrun : run.Possible) :
    ∃ s o, Session.Reachable pagesize cond limit s ∧ s.outcome = some o ∧
      s.events <+: run.events true := by
  obtain ⟨moves, hmoves, hevents⟩ := hrun
  rw [hevents]
  exact moves_judged moves {} Relation.ReflTransGen.refl rfl (by simp) hmoves

end Session

section Group
variable {pagesize : ℤ} {cond : ExecuteCondtion} {limit : CallLimit} {creates : SystemCall → Bool}

/-- The tasks that are not traced do not reach the session. -/
theorem group_reachable {acts : List GroupAction} {g : Group}
    (hrun : Run (Group.Steps pagesize cond limit creates) {} acts g) :
    Session.Reachable pagesize cond limit g.session := by
  apply hrun.invariant (fun g => Session.Reachable pagesize cond limit g.session)
  · exact Relation.ReflTransGen.refl
  · intro g a g' hg hstep
    cases a with
    | move m entry =>
      obtain ⟨hout, hm, rfl⟩ := hstep
      exact hg.tail (.move g.session m hout hm)
    | call call =>
      rw [hstep.2]
      exact hg
    | leave =>
      rw [hstep.2]
      exact hg

variable (creates) in
theorem reachable_group {s : Session} (hs : Session.Reachable pagesize cond limit s) :
    ∃ acts g, Run (Group.Steps pagesize cond limit creates) {} acts g ∧ g.session = s := by
  induction hs with
  | refl => exact ⟨[], {}, .nil _, rfl⟩
  | tail _ hstep ih =>
    obtain ⟨acts, g, hrun, rfl⟩ := ih
    obtain ⟨m, hout, hm⟩ := hstep
    have hmove : Group.Steps pagesize cond limit creates g (.move m .syscall)
        (g.move pagesize cond limit creates m .syscall) := ⟨hout, hm, rfl⟩
    exact ⟨acts ++ [.move m .syscall], _, hrun.append (.single hmove), rfl⟩

/-- A run of the child to its end stands for the child under its tracer. -/
structure Represented (pagesize : ℤ) (cond : ExecuteCondtion) (limit : CallLimit)
    (creates : SystemCall → Bool) : Prop where
  /-- `wait4` is never called for a task that is gone. -/
  waits : ∀ acts g, Run (Group.Steps pagesize cond limit creates) {} acts g →
    g.session.outcome = none → g.session.task ≠ .gone
  sound : ∀ acts g o, Run (Group.Steps pagesize cond limit creates) {} acts g →
    g.session.outcome = some o →
    ∃ run : Ended, run.Possible ∧ g.session.events <+: run.events true ∧
      Judge.run pagesize cond limit (run.child true) = .ok o
  complete : ∀ run : Ended, run.Possible → ∃ acts g o,
    Run (Group.Steps pagesize cond limit creates) {} acts g ∧ g.session.outcome = some o ∧
      g.session.events <+: run.events true ∧
      Judge.run pagesize cond limit (run.child true) = .ok o

end Group

end OnlineJudge
