import OnlineJudge.Server
import OnlineJudge.Verdict

/-! The pool of workers: which messages leave every worker in the loop of `run`, over every
run of the process. -/
namespace OnlineJudge
open Transition

/-- In a task whose `processTask` returns true, or between two tasks. -/
def Phase.Serves : Phase → Prop
  | .decoded conf _ => (constructJudger conf.codeType).isSome = true
  | .replying ok _ => ok = true
  | .returned => False
  | .blocked => False
  | _ => True

/-- The messages that the worker has received and not answered. -/
def Phase.owed : Phase → ℕ
  | .waiting => 0
  | _ => 1

@[simp] theorem nextTest_serves (job : Job) (rounds num : ℕ) (results : Results) :
    (Phase.nextTest job rounds num results).Serves := by
  cases rounds <;> trivial

@[simp] theorem nextTest_owed (job : Job) (rounds num : ℕ) (results : Results) :
    (Phase.nextTest job rounds num results).owed = 1 := by
  cases rounds <;> rfl

theorem serves_inTask {p : Phase} (hp : p.Serves) (hwait : p ≠ .waiting) :
    p.inTask = true ∨ ∃ results, p = .replying true results := by
  cases p with
  | waiting => exact absurd rfl hwait
  | replying ok results =>
    have hok : ok = true := hp
    exact Or.inr ⟨results, by rw [hok]⟩
  | returned => exact absurd hp id
  | blocked => exact absurd hp id
  | _ => exact Or.inl rfl

theorem inTask_owed {p : Phase} (hp : p.inTask = true) : p.owed = 1 := by
  cases p with
  | waiting => simp [Phase.inTask] at hp
  | _ => rfl

theorem serves_stepsLeft {p : Phase} (hp : p.Serves) (h : p.stepsLeft = 0) : p = .waiting := by
  cases p with
  | waiting => rfl
  | returned => exact absurd hp id
  | blocked => exact absurd hp id
  | _ => simp [Phase.stepsLeft] at h

theorem buildable_not_unbuildable {host : Host} {fs : FileSystem} {runId : UInt32}
    (h : Buildable host fs runId) :
    ¬ Unbuildable fs := by
  rintro (hun | ⟨errno, hun⟩) <;> rcases h with h | ⟨h, _⟩ <;> simp [hun] at h

theorem advances_serves {host : Host} {p p' : Phase} {w w' : World}
    (h : Advances host p w p' w') (hp : p.Serves) (hcalls : CallsSucceed host p w) :
    p'.Serves ∧ p'.owed = 1 := by
  cases h with
  | refused conf tools w hun => exact absurd hun (buildable_not_unbuildable hcalls)
  | unsupported conf tools w hbuild hnone => simp [Phase.Serves, hnone] at hp
  | compiled | passed => simp
  | built | stored | rejected | opened | failed => exact ⟨trivial, rfl⟩
  | cleaned => exact ⟨rfl, rfl⟩

/-- The worker has begun with a request and not yet sent its reply. -/
def Phase.Busy (p : Phase) : Prop := p.inTask = true ∨ ∃ ok results, p = .replying ok results

theorem nextTest_inTask (job : Job) (rounds num : ℕ) (results : Results) :
    (Phase.nextTest job rounds num results).inTask = true := by
  cases rounds <;> rfl

theorem advances_busy {host : Host} {p p' : Phase} {w w' : World}
    (h : Advances host p w p' w') : p'.Busy := by
  cases h with
  | compiled | passed => exact Or.inl (nextTest_inTask _ _ _ _)
  | refused | unsupported | cleaned => exact Or.inr ⟨_, _, rfl⟩
  | built | stored | rejected | opened | failed => exact Or.inl rfl

section Pool
variable {n : ℕ} (host : Host) (json : Json.Codec)

/-- All sends succeed, and no system call inside a task fails. -/
def NothingFails (s : Server n) : Action n → Prop
  | .receive _ _ _ => True
  | .advance i => CallsSucceed host (s.workers i).phase (s.world i)
  | .reply _ sent => sent = true
  | .stray _ _ => True

/-- What is received is a message, and a request in a supported language. -/
def Understood (_ : Server n) : Action n → Prop
  | .receive _ msg _ => ∃ data conf, msg = some data ∧ parseData json data = .ok conf ∧
      (constructJudger conf.codeType).isSome = true
  | _ => True

def ServedSteps (s : Server n) (a : Action n) (t : Server n) : Prop :=
  When (fun s a => NothingFails host s a ∧ Understood json s a) (Server.Steps host json) s a t

structure Serving (s : Server n) : Prop where
  alive : s.exited = false
  serves : ∀ i, (s.workers i).phase.Serves
  answered : ∀ i, (s.workers i).replies.length+(s.workers i).phase.owed =
    (s.workers i).received.length

variable {host json}

theorem started_serving {s : Server n} (h : s.Started) : Serving s := by
  obtain ⟨hexited, hfresh⟩ := h
  refine ⟨hexited, ?_, ?_⟩
  · intro i
    rw [hfresh i]
    trivial
  · intro i
    rw [hfresh i]
    rfl

theorem served_step_self {s t : Server n} {a : Action n} (hs : Serving s)
    (h : ServedSteps host json s a t) :
    t.exited = false ∧ (t.workers a.worker).phase.Serves ∧
      (t.workers a.worker).replies.length+(t.workers a.worker).phase.owed =
        (t.workers a.worker).received.length := by
  obtain ⟨⟨hfails, hunderstood⟩, hstep⟩ := h
  obtain ⟨_, hcases⟩ := Server.step_cases hstep
  have hserves := hs.serves a.worker
  have hanswered := hs.answered a.worker
  cases hcases with
  | decoded i msg tools conf hphase hparse =>
    obtain ⟨data, conf', rfl, hparse', hsome⟩ := hunderstood
    obtain rfl : conf' = conf := by
      simpa [hparse'] using hparse
    simp only [Action.worker, hphase, Phase.owed] at hanswered
    simp [Server.decode, Action.worker, Phase.Serves, Phase.owed, hsome, hs.alive, ← hanswered]
  | undecoded i msg tools e hphase hparse =>
    -- a message that is understood is decoded
    obtain ⟨data, conf', rfl, hparse', _⟩ := hunderstood
    simp [hparse'] at hparse
  | advanced i p w hphase hadv =>
    obtain ⟨hserves', howed⟩ :=
      advances_serves (advances_of_advance hphase hadv) hserves hfails
    simp only [Action.worker, inTask_owed hphase] at hanswered
    simp [Action.worker, hserves', howed, hs.alive, hanswered]
  | failed i e hphase hadv =>
    obtain ⟨out, hout⟩ := advance_returns hfails
    simp [hout] at hadv
  | answered i ok results hphase =>
    have hok : ok = true := by simpa [Action.worker, hphase, Phase.Serves] using hserves
    simp only [Action.worker, hphase, Phase.owed] at hanswered
    simp [Server.answer, Action.worker, hok, Phase.Serves, Phase.owed, hs.alive, hanswered]
  | unsent i ok results hphase => simp [NothingFails] at hfails
  | strayed i fs => exact ⟨hs.alive, hserves, hanswered⟩

theorem served_step {s t : Server n} {a : Action n} (hs : Serving s)
    (h : ServedSteps host json s a t) : Serving t := by
  obtain ⟨halive, hserves, hanswered⟩ := served_step_self hs h
  have hother : ∀ j, j ≠ a.worker → t.workers j = s.workers j :=
    fun j hj => Server.step_other h.2 hj
  refine ⟨halive, ?_, ?_⟩
  · exact forall_member (I := fun x => x.phase.Serves) Server.workers hs.serves hother hserves
  · exact forall_member (I := fun x => x.replies.length+x.phase.owed = x.received.length)
      Server.workers hs.answered hother hanswered

/-- Every call on a request brings its worker nearer to its loop. -/
theorem served_step_stepsLeft {s t : Server n} {a : Action n} (hs : Serving s)
    (h : ServedSteps host json s a t) (hcall : a.isCall = true) :
    (t.workers a.worker).phase.stepsLeft < (s.workers a.worker).phase.stepsLeft := by
  obtain ⟨⟨hfails, _⟩, hstep⟩ := h
  obtain ⟨_, hcases⟩ := Server.step_cases hstep
  have hserves := hs.serves a.worker
  cases hcases with
  | decoded | undecoded | strayed => simp [Action.isCall] at hcall
  | advanced i p w hphase hadv =>
    simpa [Action.worker] using advance_stepsLeft (advances_of_advance hphase hadv)
  | failed i e hphase hadv =>
    obtain ⟨out, hout⟩ := advance_returns hfails
    simp [hout] at hadv
  | answered i ok results hphase =>
    have hok : ok = true := by simpa [Action.worker, hphase, Phase.Serves] using hserves
    simp [Server.answer, Action.worker, hphase, hok, Phase.stepsLeft]
  | unsent i ok results hphase => simp [NothingFails] at hfails

/-- A worker that is not waiting can go on. -/
theorem serving_progress {s : Server n} (hs : Serving s) (i : Fin n)
    (hwait : (s.workers i).phase ≠ .waiting) :
    ∃ (a : Action n) (t : Server n), a.worker = i ∧ a.isCall = true ∧
      Server.Steps host json s a t := by
  rcases serves_inTask (hs.serves i) hwait with htask | ⟨results, hreply⟩
  · cases hadvance : advance host (s.workers i).phase (s.world i) with
    | ok out =>
      exact ⟨.advance i, _, rfl, rfl, Server.step_advance hs.alive htask hadvance⟩
    | error e =>
      refine ⟨.advance i, s.abort i e, rfl, rfl, ?_⟩
      simp [Server.Steps, Server.step, hs.alive, htask, hadvance]
  · exact ⟨.reply i true, _, rfl, rfl, Server.step_reply hs.alive hreply⟩

/-- Until the next message, only the calls of a worker change what is left of its request. -/
theorem served_step_rest {s t : Server n} {a : Action n} {i : Fin n}
    (h : ServedSteps host json s a t) (hreceive : a.worker = i → a.isReceive = false)
    (hcall : ¬ (a.worker = i ∧ a.isCall = true)) : t.workers i = s.workers i := by
  by_cases hworker : a.worker = i
  · obtain ⟨_, hcases⟩ := Server.step_cases h.2
    have hnot := hreceive hworker
    cases hcases with
    | decoded | undecoded => simp [Action.isReceive] at hnot
    | advanced | failed | answered | unsent => exact absurd ⟨hworker, rfl⟩ hcall
    | strayed => rfl
  · exact Server.step_other h.2 (Ne.symm hworker)

/-- While nothing fails and every message is a request in a supported language, the process
lives, every worker has answered each of its messages but the one it works on, can go on with
that one, and waits again after a bounded number of its calls. -/
theorem pool_serves {s t : Server n} {acts : List (Action n)} (hstart : s.Started)
    (hrun : Run (ServedSteps host json) s acts t) :
    t.exited = false ∧ ∀ i,
      (t.workers i).replies.length+(t.workers i).phase.owed = (t.workers i).received.length ∧
      ((t.workers i).phase = .waiting ∨ ∃ (a : Action n) (u : Server n), a.worker = i ∧
        a.isCall = true ∧ Server.Steps host json t a u) ∧
      ∀ (acts' : List (Action n)) (u : Server n), Run (ServedSteps host json) t acts' u →
        (∀ a ∈ acts', a.worker = i → a.isReceive = false) →
        (t.workers i).phase.stepsLeft ≤
          acts'.countP (fun a => a.worker = i ∧ a.isCall = true) →
        (u.workers i).phase = .waiting := by
  have ht : Serving t := hrun.invariant Serving (started_serving hstart)
    (fun s a t hs h => served_step hs h)
  refine ⟨ht.alive, fun i => ⟨ht.answered i, ?_, ?_⟩⟩
  · by_cases hwait : (t.workers i).phase = .waiting
    · exact Or.inl hwait
    · exact Or.inr (serving_progress ht i hwait)
  · intro acts' u hrun' hown hcount
    have hu : Serving u := hrun'.invariant Serving ht (fun s a t hs h => served_step hs h)
    -- each call of worker `i` takes one from `stepsLeft`, and nobody else adds to it
    have hle := hrun'.measure_le Serving (fun s => (s.workers i).phase.stepsLeft)
      (fun a => a.worker = i ∧ a.isCall = true) ht (fun s a t _ hs h => served_step hs h) ?_ ?_
    · exact serves_stepsLeft (hu.serves i) (by omega)
    · intro s a t _ hs h hi
      obtain ⟨rfl, hcall⟩ : a.worker = i ∧ a.isCall = true := by simpa using hi
      exact served_step_stepsLeft hs h hcall
    · intro s a t ha hs h hi
      have hnot : ¬ (a.worker = i ∧ a.isCall = true) := by simpa using hi
      rw [served_step_rest h (hown a ha) hnot]

variable (json)

/-- What is left of the request that the worker is in. -/
def Server.remaining (host : Host) (s : Server n) (i : Fin n) : Call (Bool × Results × World) :=
  rest host (s.workers i).phase (s.world i)

/-- The worker is busy, and a call that returns leaves the rest to be done. -/
theorem remaining_put {s : Server n} {i : Fin n} {p : Phase} {w : World}
    (hphase : (s.workers i).phase.inTask = true)
    (h : advance host (s.workers i).phase (s.world i) = .ok (p, w)) :
    (s.put i p w).remaining host i = s.remaining host i := by
  unfold Server.remaining
  rw [rest_eq_advance host hphase, h, Server.put_world, Server.put_self]
  rfl

theorem remaining_error {s : Server n} {i : Fin n} {e : Abort}
    (hphase : (s.workers i).phase.inTask = true)
    (h : advance host (s.workers i).phase (s.world i) = .error e) :
    s.remaining host i = .error e := by
  unfold Server.remaining
  rw [rest_eq_advance host hphase, h]
  rfl

/-- The worker alone brings a task that returns to its reply. -/
theorem busy_reaches_reply {s : Server n} {i : Fin n} {ok : Bool} {results : Results} {w : World}
    (halive : s.exited = false) (hbusy : (s.workers i).phase.Busy)
    (hrest : s.remaining host i = .ok (ok, results, w)) :
    ∃ (acts : List (Action n)) (t : Server n),
      Run (When (fun s a => ok = true → NothingFails host s a) (Server.Steps host json)) s acts t ∧
      (∀ a ∈ acts, a = .advance i) ∧ t.exited = false ∧
      (t.workers i).phase = .replying ok results ∧
      (t.workers i).received = (s.workers i).received ∧
      (t.workers i).replies = (s.workers i).replies ∧ t.world i = w := by
  -- every call of the task leaves fewer steps to its reply
  induction hsteps : (s.workers i).phase.stepsLeft using Nat.strong_induction_on
    generalizing s with
  | _ k ih =>
    rcases hbusy with htask | ⟨ok', results', hreply⟩
    · cases hadvance : advance host (s.workers i).phase (s.world i) with
      | error e =>
        rw [remaining_error htask hadvance] at hrest
        simp at hrest
      | ok out =>
        obtain ⟨p, w'⟩ := out
        have hadv := advances_of_advance htask hadvance
        have hlt := advance_stepsLeft hadv
        have hnext := (remaining_put htask hadvance).trans hrest
        obtain ⟨acts, t, hrun, hacts, ht⟩ := ih _ (by rw [← hsteps]; exact hlt)
          (s := s.put i p w') halive (by simpa using advances_busy hadv) hnext (by simp)
        have hfails : ok = true → NothingFails host s (.advance i) := by
          rintro rfl
          apply callsSucceed_of_advances hadv
          rintro results' rfl
          simp [Server.remaining, rest] at hnext
        refine ⟨.advance i :: acts, t,
          .cons ⟨hfails, Server.step_advance halive htask hadvance⟩ hrun, ?_, ?_⟩
        · intro a ha
          rcases List.mem_cons.mp ha with rfl | ha
          · rfl
          · exact hacts a ha
        · simpa using ht
    · simp only [Server.remaining, hreply, rest, Except.ok.injEq, Prod.mk.injEq] at hrest
      exact ⟨[], s, .nil s, by simp, halive, by rw [hreply, hrest.1, hrest.2.1], rfl, rfl,
        hrest.2.2⟩

theorem decode_remaining (s : Server n) (i : Fin n) (msg : Option Bytes) (tools : Tools)
    (conf : RunConfigure) :
    (s.decode i msg tools conf).remaining host i = judgeTask host conf tools (s.world i) := by
  simp [Server.remaining, Server.decode, rest, Server.world]

/-- A request whose task returns true, alone from its message to its reply. -/
theorem request_run {s : Server n} {i : Fin n} {msg : Bytes} {tools : Tools} {conf : RunConfigure}
    {results : Results} {w : World} (halive : s.exited = false)
    (hwait : (s.workers i).phase = .waiting) (hparse : parseData json msg = .ok conf)
    (htask : judgeTask host conf tools (s.world i) = .ok (true, results, w)) :
    ∃ (acts : List (Action n)) (t : Server n),
      Run (When (NothingFails host) (Server.Steps host json)) s
        (.receive i (some msg) tools :: acts) t ∧
      (∀ a ∈ acts, a = .advance i ∨ a = .reply i true) ∧ t.exited = false ∧
      (t.workers i).phase = .waiting ∧
      (t.workers i).received = (s.workers i).received ++ [msg] ∧
      (t.workers i).replies = (s.workers i).replies ++ [wrapData json results] ∧
      t.world i = w := by
  have hreceive : When (NothingFails host) (Server.Steps host json) s
      (.receive i (some msg) tools) (s.decode i (some msg) tools conf) :=
    ⟨trivial, Server.step_receive halive hwait hparse⟩
  obtain ⟨acts, t, hrun, hacts, ht, hphase, hreceived, hreplies, hworld⟩ :=
    busy_reaches_reply json (s := s.decode i (some msg) tools conf) (i := i) halive
      (Or.inl (by simp [Server.decode, Phase.inTask]))
      ((decode_remaining s i (some msg) tools conf).trans htask)
  have hcalls : Run (When (NothingFails host) (Server.Steps host json))
      (s.decode i (some msg) tools conf) acts t :=
    hrun.mono_on fun _ _ _ _ h => ⟨h.1 rfl, h.2⟩
  have hreply : When (NothingFails host) (Server.Steps host json) t (.reply i true)
      (t.answer json i true results) := ⟨rfl, Server.step_reply ht hphase⟩
  -- the receive, the calls of the task, and the reply
  refine ⟨acts ++ [.reply i true], t.answer json i true results,
    .cons hreceive (hcalls.append (.single hreply)), ?_, ht, ?_, ?_, ?_, ?_⟩
  · intro a ha
    rcases List.mem_append.mp ha with ha | ha
    · exact Or.inl (hacts a ha)
    · exact Or.inr (List.mem_singleton.mp ha)
  · simp [Server.answer]
  · simp [Server.answer, hreceived, Server.decode]
  · simp [Server.answer, hreplies, Server.decode, Server.replied]
  · rw [← hworld]
    simp [Server.answer, Server.world]

end Pool

section Pascal

/-- The only worker, or client, where there is one. -/
abbrev sole : Fin 1 := 0

/-- The two workers, where there are two. -/
abbrev former : Fin 2 := 0

abbrev latter : Fin 2 := 1

def freshServer : Server 1 where
  fs := slowFirstWorld.fs
  workers _ := {}

theorem freshServer_started : freshServer.Started := ⟨rfl, fun _ => rfl⟩

def rubyDecoded : Server 1 :=
  freshServer.decode 0 (some rubyConf.message) (.ofRuns slowFirst) rubyConf

/-- The results of the Ruby program on its two tests. -/
def rubyResults : Results :=
  { finalResults .standard .judgeRuby rubyConf [slowFirst 0, slowFirst 1] {} with runId := 7 }

/-- What the one worker has when it has judged them. -/
def rubyWorld : World :=
  ((freshServer.world sole).tested .standard (.ofRuns slowFirst) .judgeRuby rubyConf
    [slowFirst 0, slowFirst 1]).cleaned .standard rubyConf.runId

theorem ruby_judged : judgeTask .standard rubyConf (.ofRuns slowFirst) (freshServer.world sole) =
    .ok (true, rubyResults, rubyWorld) :=
  judgeTask_served _ (Or.inr ⟨rfl, Or.inl rfl⟩) rfl slowFirst_served

/-- The request for Ruby, from its message to its reply. -/
theorem ruby_served : ∃ (acts : List (Action 1)) (t : Server 1),
    Run (ServedSteps .standard rubyCodec) freshServer
      (.receive sole (some rubyConf.message) (.ofRuns slowFirst) :: acts) t ∧
    (∀ a ∈ acts, a = .advance sole ∨ a = .reply sole true) ∧
    (t.workers sole).phase = .waiting ∧
    (t.workers sole).replies = [wrapData rubyCodec rubyResults] ∧ t.world sole = rubyWorld := by
  obtain ⟨acts, t, hrun, hacts, _, hwait, _, hreplies, hworld⟩ :=
    request_run rubyCodec (s := freshServer) rfl rfl parseData_ruby ruby_judged
  refine ⟨acts, t, ?_, hacts, hwait, hreplies, hworld⟩
  apply hrun.mono_on
  intro u a v ha h
  refine ⟨⟨h.1, ?_⟩, h.2⟩
  rcases List.mem_cons.mp ha with rfl | ha
  · exact ⟨_, rubyConf, rfl, parseData_ruby, rfl⟩
  · rcases hacts a ha with rfl | rfl <;> trivial

theorem pool_serves_ruby :
    ∃ (acts : List (Action 1)) (t : Server 1),
      Run (ServedSteps .standard rubyCodec) freshServer acts t ∧
      (t.workers sole).replies = [wrapData rubyCodec rubyResults] ∧
      t.exited = false ∧ ∀ i,
        (t.workers i).replies.length+(t.workers i).phase.owed = (t.workers i).received.length ∧
        ((t.workers i).phase = .waiting ∨ ∃ (a : Action 1) (u : Server 1), a.worker = i ∧
          a.isCall = true ∧ Server.Steps .standard rubyCodec t a u) ∧
        ∀ (acts' : List (Action 1)) (u : Server 1),
          Run (ServedSteps .standard rubyCodec) t acts' u →
          (∀ a ∈ acts', a.worker = i → a.isReceive = false) →
          (t.workers i).phase.stepsLeft ≤
            acts'.countP (fun a => a.worker = i ∧ a.isCall = true) →
          (u.workers i).phase = .waiting := by
  obtain ⟨acts, t, hrun, _, _, hreplies, _⟩ := ruby_served
  exact ⟨_, t, hrun, hreplies, pool_serves freshServer_started hrun⟩

def pascalDecoded : Server 1 :=
  freshServer.decode 0 (some pascalConf.message) (.ofRuns slowFirst) pascalConf

theorem pascalDecoded_phase :
    (pascalDecoded.workers 0).phase = .decoded pascalConf (.ofRuns slowFirst) := by
  simp [pascalDecoded, Server.decode]

theorem pascalDecoded_buildable : Buildable .standard (pascalDecoded.world 0).fs pascalConf.runId :=
  Or.inr ⟨rfl, Or.inl rfl⟩

/-- `constructJudger` returns `NULL`. -/
theorem refuse_advance {n : ℕ} {s : Server n} {i : Fin n} {tools : Tools}
    (halive : s.exited = false) (hphase : (s.workers i).phase = .decoded pascalConf tools)
    (hbuild : Buildable .standard s.fs pascalConf.runId) :
    Server.Steps .standard pascalCodec s (.advance i)
      (s.put i (.replying false {}) ((s.world i).built pascalConf.runId)) := by
  have hnone : constructJudger pascalConf.codeType = none := by decide
  apply Server.step_advance halive
  · rw [hphase]
    rfl
  · rw [hphase]
    exact advance_of_advances (.unsupported _ _ (s.world i) hbuild hnone)

def pascalRefused : Server 1 :=
  pascalDecoded.put 0 (.replying false {}) ((pascalDecoded.world 0).built pascalConf.runId)

theorem pascalRefused_phase : (pascalRefused.workers 0).phase = .replying false {} := by
  simp [pascalRefused]

theorem pascal_receive : Server.Steps .standard pascalCodec freshServer
    (.receive 0 (some pascalConf.message) (.ofRuns slowFirst)) pascalDecoded :=
  Server.step_receive rfl rfl parseData_pascal

theorem pascal_advance :
    Server.Steps .standard pascalCodec pascalDecoded (.advance 0) pascalRefused :=
  refuse_advance rfl pascalDecoded_phase pascalDecoded_buildable

theorem pascal_reply : Server.Steps .standard pascalCodec pascalRefused (.reply 0 true)
    (pascalRefused.answer pascalCodec 0 false {}) :=
  Server.step_reply rfl pascalRefused_phase

/-- Nothing fails, and still one request takes its worker out of the loop for good. -/
theorem not_pool_serves :
    ¬ ∀ (n : ℕ) (host : Host) (json : Json.Codec) (s t : Server n) (acts : List (Action n)),
      s.Started → Run (When (NothingFails host) (Server.Steps host json)) s acts t →
      t.exited = false ∧ ∀ i, (t.workers i).phase ≠ .returned := by
  intro hclaim
  have hcalls : CallsSucceed .standard (pascalDecoded.workers 0).phase
      (pascalDecoded.world 0) := by
    rw [pascalDecoded_phase]
    exact pascalDecoded_buildable
  have hreceive : When (NothingFails .standard) (Server.Steps .standard pascalCodec) freshServer
      (.receive 0 (some pascalConf.message) (.ofRuns slowFirst)) pascalDecoded :=
    ⟨trivial, pascal_receive⟩
  have hadvance : When (NothingFails .standard) (Server.Steps .standard pascalCodec)
      pascalDecoded (.advance 0) pascalRefused :=
    ⟨hcalls, pascal_advance⟩
  have hreply : When (NothingFails .standard) (Server.Steps .standard pascalCodec)
      pascalRefused (.reply 0 true) (pascalRefused.answer pascalCodec 0 false {}) :=
    ⟨rfl, pascal_reply⟩
  have hrun := Run.cons hreceive (.cons hadvance (.single hreply))
  have hend := (hclaim 1 _ _ _ _ _ freshServer_started hrun).2 0
  simp [Server.answer] at hend

end Pascal

end OnlineJudge
