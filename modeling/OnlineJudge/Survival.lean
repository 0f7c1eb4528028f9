import OnlineJudge.Pool

/-! One request in one worker: exactly when it ends in a reply, and when it takes the process
with it. -/
namespace OnlineJudge
open Transition

section Request
variable {n : ℕ} {host : Host} {json : Json.Codec}

/-- The steps of worker `i` on the request it has begun. -/
def OwnStep (i : Fin n) (a : Action n) : Prop := a.worker = i ∧ a.isCall = true

/-- How far worker `i` has come with a request whose `processTask` gives `task`: it is busy
with the rest of it, or has sent or given up its reply, or hangs or has ended the process. -/
inductive Underway (host : Host) (task : Call (Bool × Results × World)) (i : Fin n)
    (replies : List Bytes) (s : Server n) : Prop
  | busy (hbusy : (s.workers i).phase.Busy) (halive : s.exited = false)
      (hreplies : (s.workers i).replies = replies) (hrest : s.remaining host i = task)
  | ended (hok : ∃ out, task = .ok out) (hidle : ¬ (s.workers i).phase.Busy)
      (halive : s.exited = false)
  | aborted (herror : ∃ e, task = .error e) (hreplies : (s.workers i).replies = replies)
      (hidle : s.exited = true ∨ ¬ (s.workers i).phase.Busy)

theorem abort_replies (s : Server n) (i : Fin n) (e : Abort) :
    ((s.abort i e).workers i).replies = (s.workers i).replies := by
  unfold Server.abort
  split_ifs <;> simp

theorem abort_idle (s : Server n) (i : Fin n) (e : Abort) :
    (s.abort i e).exited = true ∨ ¬ ((s.abort i e).workers i).phase.Busy := by
  unfold Server.abort
  split_ifs
  · exact Or.inl rfl
  · right
    simp [Phase.Busy, Phase.inTask]

theorem step_busy {s t : Server n} {i : Fin n} {a : Action n} (h : Server.Steps host json s a t)
    (hown : OwnStep i a) : (s.workers i).phase.Busy := by
  obtain ⟨_, hcases⟩ := Server.step_cases h
  obtain ⟨rfl, hcall⟩ := hown
  cases hcases with
  | decoded | undecoded | strayed => simp [Action.isCall] at hcall
  | advanced _ _ _ hphase _ => exact Or.inl hphase
  | failed _ _ hphase _ => exact Or.inl hphase
  | answered _ ok results hphase => exact Or.inr ⟨ok, results, hphase⟩
  | unsent _ ok results hphase => exact Or.inr ⟨ok, results, hphase⟩

theorem underway_step {s t : Server n} {i : Fin n} {a : Action n}
    {task : Call (Bool × Results × World)} {replies : List Bytes}
    (hs : Underway host task i replies s) (h : Server.Steps host json s a t)
    (hown : OwnStep i a) : Underway host task i replies t := by
  have hbusy := step_busy h hown
  obtain ⟨halive, hcases⟩ := Server.step_cases h
  -- after its reply, or after a call that broke the task off, a worker has no step left
  cases hs with
  | ended _ hidle _ => exact absurd hbusy hidle
  | aborted _ _ hidle =>
    rcases hidle with hexited | hidle
    · simp [halive] at hexited
    · exact absurd hbusy hidle
  | busy _ _ hreplies hrest =>
    obtain ⟨rfl, hcall⟩ := hown
    cases hcases with
    | decoded | undecoded | strayed => simp [Action.isCall] at hcall
    | advanced i p w hphase hadv =>
      refine .busy ?_ halive ?_ ((remaining_put hphase hadv).trans hrest)
      · simpa [Action.worker] using advances_busy (advances_of_advance hphase hadv)
      · simpa [Action.worker] using hreplies
    | failed i e hphase hadv =>
      refine .aborted ⟨e, ?_⟩ ((abort_replies s i e).trans hreplies) (abort_idle s i e)
      rw [← hrest]
      exact remaining_error hphase hadv
    | answered i ok results hphase =>
      refine .ended ⟨(ok, results, s.world i), hrest.symm.trans ?_⟩ ?_ halive
      · simp only [Server.remaining, Action.worker, hphase, rest]
      · cases ok <;> simp [Server.answer, Action.worker, Phase.Busy, Phase.inTask]
    | unsent i ok results hphase =>
      refine .ended ⟨(ok, results, s.world i), hrest.symm.trans ?_⟩ ?_ halive
      · simp only [Server.remaining, Action.worker, hphase, rest]
      · simp [Action.worker, Phase.Busy, Phase.inTask]

variable (host json)

/-- The request is answered by worker `i`, and on the way there the process does not exit and
no other worker is touched. -/
def EndsInReply (s : Server n) (i : Fin n) (msg : Bytes) (tools : Tools) : Prop :=
  (∃ (acts : List (Action n)) (t : Server n) (results : Results),
    Run (Server.Steps host json) s (.receive i (some msg) tools :: acts) t ∧
    (∀ a ∈ acts, OwnStep i a) ∧
    (t.workers i).replies = (s.workers i).replies ++ [wrapData json results]) ∧
  ∀ (acts : List (Action n)) (t : Server n),
    Run (Server.Steps host json) s (.receive i (some msg) tools :: acts) t →
    (∀ a ∈ acts, OwnStep i a) → t.exited = false ∧ ∀ j, j ≠ i → t.workers j = s.workers j

variable {host json}

/-- A run of one request goes through its decoded state, and stays underway. -/
theorem run_underway {s t : Server n} {i : Fin n} {msg : Bytes} {tools : Tools}
    {conf : RunConfigure} {acts : List (Action n)} (hparse : parseData json msg = .ok conf)
    (hrun : Run (Server.Steps host json) s (.receive i (some msg) tools :: acts) t)
    (hown : ∀ a ∈ acts, OwnStep i a) :
    Underway host (judgeTask host conf tools (s.world i)) i (s.workers i).replies t := by
  cases hrun with
  | cons hstep hrun =>
    obtain ⟨halive, hcases⟩ := Server.step_cases hstep
    cases hcases with
    | undecoded _ _ _ e _ hfail => simp [hparse] at hfail
    | decoded _ _ _ conf' _ hparse' =>
      obtain rfl : conf = conf' := by simpa [hparse] using hparse'
      refine hrun.invariant_on _ (.busy ?_ halive ?_ (decode_remaining s i (some msg) tools conf))
        (fun s a t ha hs h => underway_step hs h (hown a ha))
      · exact Or.inl (by simp [Server.decode, Phase.inTask])
      · simp [Server.decode]

theorem underway_replied {s : Server n} {i : Fin n} {task : Call (Bool × Results × World)}
    {replies more : List Bytes} (hs : Underway host task i replies s)
    (hreplies : (s.workers i).replies = replies ++ more) (hmore : more ≠ []) :
    ∃ out, task = .ok out := by
  cases hs with
  | ended hok _ _ => exact hok
  | busy _ _ hsame _ => simp [hsame, hmore] at hreplies
  | aborted _ hsame _ => simp [hsame, hmore] at hreplies

theorem endsInReply_returns {s : Server n} {i : Fin n} {msg : Bytes} {tools : Tools}
    {conf : RunConfigure} (hparse : parseData json msg = .ok conf)
    (h : EndsInReply host json s i msg tools) :
    ∃ out, judgeTask host conf tools (s.world i) = .ok out := by
  obtain ⟨⟨acts, t, results, hrun, hown, hreplies⟩, _⟩ := h
  exact underway_replied (run_underway hparse hrun hown) hreplies (by simp)

end Request

section NoData

def noDataServer : Server 1 where
  fs := { temp := .directory, work := fun _ => none,
          data := { rightInput := fun _ _ => none, rightOutput := fun _ _ => none } }
  workers _ := {}

/-- The first test of the request opens a file that is not there, and `printError` exits. -/
theorem noData_exits :
    judgeTask .standard rubyConf (.ofRuns slowFirst) (noDataServer.world 0) =
      .error (.exit "open file error" ENOENT) := by
  have hbuild : Buildable .standard (noDataServer.world 0).fs rubyConf.runId :=
    Or.inr ⟨rfl, Or.inl rfl⟩
  have hjudger : constructJudger rubyConf.codeType = some .judgeRuby := by decide
  have hrounds : rubyConf.runTimes.toNat = 2 := by decide
  rw [judgeTask_supported _ hbuild hjudger,
    compileAndRun_compiles _ (compiles_ofRuns slowFirst .standard .judgeRuby rubyConf), hrounds]
  simp [testLoop, getFileno, World.compiled, World.built, builtFs, Server.world, noDataServer,
    printError]

end NoData

end OnlineJudge
