import OnlineJudge.Survival

/-! The descriptors that a worker holds, over every run of the process: `getFileno` opens three
for each test, and only a test that passes closes them. -/
namespace OnlineJudge
open Posix Transition

/-- Every descriptor below `next` that was opened was opened once and closed once. -/
def Settled (log : List FdEvent) (next : ℕ) : Prop :=
  ∀ fd, log.count (.closed fd) = log.count (.opened fd) ∧ log.count (.opened fd) ≤ 1 ∧
    (next ≤ fd → log.count (.opened fd) = 0)

/-- The worker holds no descriptor. -/
def Ledger.Idle (l : Ledger) : Prop := l.fileManager = {} ∧ Settled l.fdLog l.nextFd

/-- The worker holds the three descriptors of one test. -/
def Ledger.Holding (l : Ledger) : Prop :=
  ∃ before k, Settled before k ∧ l.nextFd = k+3 ∧ l.fileManager.isClosed = false ∧
    l.fileManager.files.map File.fd = [k, k+1, k+2] ∧
    l.fdLog = before ++ [.opened k, .opened (k+1), .opened (k+2)]

/-- The descriptors that are open when this has happened. -/
def heldFds (log : List FdEvent) : List ℕ :=
  log.filterMap fun e =>
    match e with
    | .opened fd => if .closed fd ∈ log then none else some fd
    | .closed _ => none

theorem settled_empty : Settled [] 0 := by
  intro fd
  simp

theorem settled_close {before : List FdEvent} {k : ℕ} (h : Settled before k) :
    Settled (before ++ [.opened k, .opened (k+1), .opened (k+2)] ++
      [.closed k, .closed (k+1), .closed (k+2)]) (k+3) := by
  intro fd
  obtain ⟨hclosed, hopened, hfresh⟩ := h fd
  simp only [List.count_append, List.count_cons, List.count_nil, beq_iff_eq,
    FdEvent.opened.injEq, FdEvent.closed.injEq, reduceCtorEq, if_false]
  -- the three numbers are fresh, and each is counted once on both sides
  by_cases hfd : k ≤ fd
  · have hzero := hfresh hfd
    split_ifs <;> omega
  · split_ifs <;> omega

theorem settled_closed {log : List FdEvent} {next fd : ℕ} (h : Settled log next)
    (hmem : FdEvent.opened fd ∈ log) : FdEvent.closed fd ∈ log := by
  have hpos := List.count_pos_iff.mpr hmem
  have hsame := (h fd).1
  exact List.count_pos_iff.mp (by omega)

theorem idle_heldFds {l : Ledger} (h : l.Idle) : heldFds l.fdLog = [] := by
  rw [heldFds, List.filterMap_eq_nil_iff]
  intro e he
  cases e with
  | opened fd => simp [settled_closed h.2 he]
  | closed fd => rfl

theorem holding_heldFds {l : Ledger} (h : l.Holding) : (heldFds l.fdLog).length ≤ 3 := by
  obtain ⟨before, k, hsettled, _, _, _, hlog⟩ := h
  rw [hlog, heldFds, List.filterMap_append, List.length_append]
  have hbefore : (before.filterMap fun e =>
      match e with
      | .opened fd =>
        if .closed fd ∈ before ++ [.opened k, .opened (k+1), .opened (k+2)] then none
        else some fd
      | .closed _ => none) = [] := by
    rw [List.filterMap_eq_nil_iff]
    intro e he
    cases e with
    | opened fd => simp [settled_closed hsettled he]
    | closed fd => rfl
  rw [hbefore, List.length_nil, Nat.zero_add]
  exact List.length_filterMap_le _ [_, _, _]

theorem withTestFiles_holding {conf : RunConfigure} {num : ℕ} {w : World}
    (h : w.toLedger.Idle) : (w.withTestFiles conf num).toLedger.Holding := by
  obtain ⟨hmanager, hsettled⟩ := h
  refine ⟨w.fdLog, w.nextFd, hsettled, rfl, rfl, ?_, rfl⟩
  simp [World.withTestFiles, hmanager]

theorem closeAll_idle {w : World} (h : w.toLedger.Holding) : w.closeAll.toLedger.Idle := by
  obtain ⟨before, k, hsettled, hnext, hopen, hfiles, hlog⟩ := h
  have hclosed : w.fileManager.files.map (fun file => FdEvent.closed file.fd) =
      [.closed k, .closed (k+1), .closed (k+2)] := by
    have hmap := congrArg (List.map FdEvent.closed) hfiles
    simpa [Function.comp_def] using hmap
  have hclose : w.closeAll.toLedger =
      { w.toLedger with
        fileManager := {}
        fdLog := w.fdLog ++ [.closed k, .closed (k+1), .closed (k+2)] } := by
    unfold World.closeAll
    rw [if_neg (by simp [hopen]), hclosed]
  rw [hclose]
  refine ⟨rfl, ?_⟩
  simp only [hlog, hnext]
  exact settled_close hsettled

section Descriptors
variable {n : ℕ} (host : Host)

/-- What a worker holds at each point of its loop, as long as its tests pass. -/
def Tidy (p : Phase) (l : Ledger) : Prop :=
  match p with
  | .running _ _ _ _ _ => l.Holding
  | .blocked => l.Idle ∨ l.Holding
  | _ => l.Idle

def TestPasses (p : Phase) (w : World) : Prop :=
  match p with
  | .running job _ num rightout _ => ∀ t : TestRun, t.rightout = rightout →
      (childRun host job.judger job.conf job.tools num (w.fs.work job.conf.runId)).Is t →
      t.Passes host job.judger job.conf.executeCondtion
  | _ => True

def TestsPass (s : Server n) : Action n → Prop
  | .advance i => TestPasses host (s.workers i).phase (s.world i)
  | _ => True

variable {host}

theorem nextTest_tidy (job : Job) (rounds num : ℕ) (results : Results) (l : Ledger) :
    Tidy (.nextTest job rounds num results) l ↔ l.Idle := by
  cases rounds <;> rfl

theorem advances_tidy {p p' : Phase} {w w' : World} (h : Advances host p w p' w')
    (hp : Tidy p w.toLedger) (hpass : TestPasses host p w) : Tidy p' w'.toLedger := by
  cases h with
  | opened job rounds num rightout results w hopen => exact withTestFiles_holding hp
  | passed job rounds num t results w hrun ht =>
    rw [nextTest_tidy]
    exact closeAll_idle hp
  | failed job rounds num t results w hrun ht => exact absurd (hpass t rfl hrun) ht
  | compiled job w hok => exact (nextTest_tidy job _ _ _ _).mpr hp
  | refused | unsupported | built | stored | rejected | cleaned => exact hp

theorem tidy_blocked {p : Phase} {l : Ledger} (h : Tidy p l) : Tidy .blocked l := by
  cases p with
  | running => exact Or.inr h
  | blocked => exact h
  | _ => exact Or.inl h

theorem tidy_heldFds {p : Phase} {l : Ledger} (h : Tidy p l) : (heldFds l.fdLog).length ≤ 3 := by
  rcases tidy_blocked h with hidle | hholding
  · simp [idle_heldFds hidle]
  · exact holding_heldFds hholding

theorem abort_tidy {s : Server n} {i : Fin n} (e : Abort)
    (h : Tidy (s.workers i).phase (s.workers i).ledger) :
    Tidy ((s.abort i e).workers i).phase ((s.abort i e).workers i).ledger := by
  unfold Server.abort
  split_ifs
  · exact h
  · simpa using tidy_blocked h

theorem tidy_step {json : Json.Codec} {s t : Server n} {a : Action n}
    (hidle : Tidy (s.workers a.worker).phase (s.workers a.worker).ledger)
    (h : When (TestsPass host) (Server.Steps host json) s a t) :
    Tidy (t.workers a.worker).phase (t.workers a.worker).ledger := by
  obtain ⟨hpass, hstep⟩ := h
  obtain ⟨_, hcases⟩ := Server.step_cases hstep
  -- the ledger changes in the calls of a task only
  cases hcases with
  | decoded i msg tools conf hphase _ =>
    simp only [Action.worker, hphase] at hidle
    simp only [Server.decode, Action.worker, Server.modify_self]
    exact hidle
  | undecoded i msg tools e _ _ => exact abort_tidy e hidle
  | advanced i p w hphase hadv =>
    simpa [Action.worker] using advances_tidy (advances_of_advance hphase hadv) hidle hpass
  | failed i e _ _ => exact abort_tidy e hidle
  | answered i ok results hphase =>
    simp only [Action.worker, hphase] at hidle
    simp only [Server.answer, Action.worker, Server.modify_self]
    cases ok <;> exact hidle
  | unsent i ok results hphase =>
    simp only [Action.worker, hphase] at hidle
    simp only [Action.worker, Server.modify_self]
    exact hidle
  | strayed i fs => exact hidle

/-- While every test that is run passes, a worker back at `recvMsg` has closed each of its
descriptors once, and never holds more than those of one test. -/
theorem descriptors_closed {json : Json.Codec} {s t : Server n} {acts : List (Action n)}
    (hstart : s.Started) (hrun : Run (When (TestsPass host) (Server.Steps host json)) s acts t)
    (i : Fin n) :
    ((t.workers i).phase = .waiting → (t.workers i).ledger.fileManager.files = [] ∧
      ∀ fd, .opened fd ∈ (t.workers i).ledger.fdLog →
        (t.workers i).ledger.fdLog.count (.opened fd) = 1 ∧
        (t.workers i).ledger.fdLog.count (.closed fd) = 1) ∧
    (heldFds (t.workers i).ledger.fdLog).length ≤ 3 := by
  have htidy := Server.worker_invariant hrun (fun x => Tidy x.phase x.ledger) hstart
    ⟨rfl, settled_empty⟩ (fun s a t hs h => tidy_step hs h) i
  refine ⟨?_, tidy_heldFds htidy⟩
  intro hwait
  have hidle := htidy
  rw [hwait] at hidle
  obtain ⟨hmanager, hsettled⟩ := hidle
  refine ⟨by rw [hmanager], ?_⟩
  intro fd hfd
  have hpos := List.count_pos_iff.mpr hfd
  obtain ⟨hclosed, hopened, _⟩ := hsettled fd
  omega

end Descriptors

section Programs
variable {runs : ℕ → TestRun}

/-- The task is one for these programs, and its test data are theirs. -/
def RunsOnly (runs : ℕ → TestRun) : Phase → Prop
  | .decoded _ tools => tools = .ofRuns runs
  | .built job => job.tools = .ofRuns runs
  | .stored job => job.tools = .ofRuns runs
  | .opening job _ _ _ => job.tools = .ofRuns runs
  | .running job _ num rightout _ => job.tools = .ofRuns runs ∧ rightout = (runs num).rightout
  | _ => True

theorem nextTest_runsOnly {job : Job} (rounds num : ℕ) (results : Results)
    (h : job.tools = .ofRuns runs) : RunsOnly runs (.nextTest job rounds num results) := by
  cases rounds with
  | zero => trivial
  | succ rounds => exact h

theorem advances_runsOnly {host : Host} {p p' : Phase} {w w' : World}
    (h : Advances host p w p' w') (hdata : w.fs.data = .ofRuns runs) (hp : RunsOnly runs p) :
    RunsOnly runs p' := by
  cases h with
  | built | stored => exact hp
  | compiled job w left hok => exact nextTest_runsOnly _ _ _ hp
  | opened job rounds num rightout results w hopen =>
    refine ⟨hp, ?_⟩
    have hright := hopen.rightOutput
    rw [hdata] at hright
    exact (Option.some.inj hright).symm
  | passed job rounds num t results w hrun ht => exact nextTest_runsOnly _ _ _ hp.1
  | refused | unsupported | rejected | failed | cleaned => trivial

/-- The run of a test is the one with its number. -/
theorem testPasses_runsOnly {host : Host} {p : Phase} {w : World}
    (hall : ∀ num judger cond, (runs num).Passes host judger cond) (hp : RunsOnly runs p) :
    TestPasses host p w := by
  cases p with
  | running job rounds num rightout results =>
    obtain ⟨htools, rfl⟩ := hp
    intro t hright ht
    have hfate := ht.1
    simp only [childRun, htools, Tools.ofRuns, setRunner_ended, ChildFate.ended.injEq] at hfate
    have hout : (runs num).userout = t.userout := by
      simpa [childRun, htools, Tools.ofRuns] using ht.2
    have hsame : t = runs num := by
      obtain ⟨run, userout, rightout⟩ := t
      obtain rfl : (runs num).run = run := hfate.2
      obtain rfl : (runs num).userout = userout := hout
      obtain rfl : rightout = (runs num).rightout := hright
      rfl
    rw [hsame]
    exact hall num _ _
  | _ => trivial

theorem slowFirst_passes (num : ℕ) (judger : Judger) (cond : ExecuteCondtion) :
    (slowFirst num).Passes .standard judger cond := by
  have hkill : ¬ (slowFirst num).Killed judger cond := by
    simp [TestRun.Killed, StoppedByTracer, slowFirst, traceAllows, stopAllowed, Fate.exits]
  have hout : (slowFirst 0).OutputOk .standard := by decide +kernel
  exact ⟨hkill, hout⟩

/-- Both tests of the request pass, and six descriptors have been opened and closed. -/
theorem descriptors_closed_ruby : ∃ (acts : List (Action 1)) (t : Server 1),
    Run (When (TestsPass .standard) (Server.Steps .standard rubyCodec)) freshServer acts t ∧
    (t.workers sole).phase = .waiting ∧ (t.workers sole).ledger.fdLog.length = 12 ∧
    ((t.workers sole).phase = .waiting → (t.workers sole).ledger.fileManager.files = [] ∧
      ∀ fd, .opened fd ∈ (t.workers sole).ledger.fdLog →
        (t.workers sole).ledger.fdLog.count (.opened fd) = 1 ∧
        (t.workers sole).ledger.fdLog.count (.closed fd) = 1) ∧
    (heldFds (t.workers sole).ledger.fdLog).length ≤ 3 := by
  obtain ⟨acts, t, hserved, hacts, hwait, _, hworld⟩ := ruby_served
  have hrun : Run (When (TestsPass .standard) (Server.Steps .standard rubyCodec)) freshServer
      (.receive sole (some rubyConf.message) (.ofRuns slowFirst) :: acts) t := by
    apply hserved.strengthen
      (fun u => RunsOnly slowFirst (u.workers sole).phase ∧ u.fs.data = .ofRuns slowFirst)
      ⟨trivial, rfl⟩
    intro u a v ha hu h
    obtain ⟨_, hcases⟩ := Server.step_cases h.2
    rcases List.mem_cons.mp ha with rfl | ha
    · refine ⟨⟨trivial, h.2⟩, ?_⟩
      cases hcases with
      | decoded _ _ _ conf hphase hparse => exact ⟨by simp [Server.decode, RunsOnly], hu.2⟩
      | undecoded _ _ _ e hphase hparse => simp [parseData_ruby] at hparse
    -- the receive is followed by calls of the task and by its one reply
    · rcases hacts a ha with rfl | rfl
      · refine ⟨⟨testPasses_runsOnly slowFirst_passes hu.1, h.2⟩, ?_⟩
        cases hcases with
        | advanced _ p w hphase hadv =>
          have hadv := advances_of_advance hphase hadv
          refine ⟨?_, (advances_data hadv).trans hu.2⟩
          simpa using advances_runsOnly hadv hu.2 hu.1
        | failed _ e hphase hadv =>
          obtain ⟨out, hout⟩ := advance_returns h.1.1
          simp [hout] at hadv
      · refine ⟨⟨trivial, h.2⟩, ?_⟩
        cases hcases with
        | answered _ ok results hphase =>
          refine ⟨?_, hu.2⟩
          cases ok <;> simp [Server.answer, RunsOnly]
  have hledger : (t.workers sole).ledger = rubyWorld.toLedger := congrArg World.toLedger hworld
  refine ⟨_, t, hrun, hwait, ?_, descriptors_closed freshServer_started hrun sole⟩
  rw [hledger]
  decide +kernel

end Programs

section WrongAnswer

/-- A Ruby program that prints another number than the one expected. -/
def wrongAnswer (_ : ℕ) : TestRun where
  run := ⟨[⟨SIGTRAP, 59, ⟨0, 0, 100⟩⟩], .exited 0, ⟨0, 0, 2000⟩⟩
  userout := { data := str "2\n" }
  rightout := { data := str "1\n" }

def wrongAnswerServer : Server 1 where
  fs := { temp := .directory, work := fun _ => none, data := .ofRuns wrongAnswer }
  workers _ := {}

/-- What the one worker has when it has judged the wrong answer. -/
def wrongAnswerWorld : World :=
  ((wrongAnswerServer.world sole).tested .standard (.ofRuns wrongAnswer) .judgeRuby rubyConf
    [wrongAnswer 0, wrongAnswer 1]).cleaned .standard rubyConf.runId

theorem wrongAnswer_leaks : wrongAnswerWorld.fileManager.files ≠ [] := by
  have hfails : ¬ (wrongAnswer 0).Passes .standard .judgeRuby rubyConf.executeCondtion := by
    decide +kernel
  simp [wrongAnswerWorld, World.cleaned, World.tested, worldAfter, hfails, World.afterTest,
    World.afterRun, World.withTestFiles]

/-- The worker replies to the wrong answer, and keeps the files of its test. -/
theorem wrongAnswer_replied : ∃ acts t,
    Run (Server.Steps .standard rubyCodec) wrongAnswerServer acts t ∧
      (t.workers sole).phase = .waiting ∧
      (t.workers sole).ledger = wrongAnswerWorld.toLedger := by
  have hbuild : Buildable .standard (wrongAnswerServer.world sole).fs rubyConf.runId :=
    Or.inr ⟨rfl, Or.inl rfl⟩
  have htask := judgeTask_served (wrongAnswerServer.world sole) hbuild (by decide)
    (taskServed_ofRuns wrongAnswer .standard .judgeRuby (by decide) standard_short)
  obtain ⟨acts, t, hrun, _, _, hwait, _, _, hworld⟩ :=
    request_run rubyCodec (s := wrongAnswerServer) (i := sole) rfl rfl parseData_ruby htask
  exact ⟨_, t, hrun.of_when, hwait, congrArg World.toLedger hworld⟩

/-- A worker back at `recvMsg` can hold the descriptors of the last request. -/
theorem not_descriptors_closed :
    ¬ ∀ (n : ℕ) (host : Host) (json : Json.Codec) (s t : Server n) (acts : List (Action n)),
      s.Started → Run (Server.Steps host json) s acts t → ∀ i,
      (t.workers i).phase = .waiting → (t.workers i).ledger.fileManager.files = [] := by
  intro hclaim
  obtain ⟨acts, t, hrun, hwait, hledger⟩ := wrongAnswer_replied
  have hempty := hclaim 1 .standard rubyCodec _ t acts ⟨rfl, fun _ => rfl⟩ hrun sole hwait
  rw [hledger] at hempty
  exact wrongAnswer_leaks hempty

end WrongAnswer

end OnlineJudge
