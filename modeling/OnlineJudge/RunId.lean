import OnlineJudge.Survival

/-! The run id, by which a client tells the replies to its requests apart: where it is copied
into the results, and which replies carry it. -/
namespace OnlineJudge
open Transition

/-- The JSON of this request has a `run_id`, with this value. -/
def CarriesRunId (json : Json.Codec) (body : Bytes) (runId : UInt32) : Prop :=
  ∃ members v, json.parse body = .object members ∧ members.lookup "run_id" = some v ∧
    v.asUInt = .ok runId

theorem carriesRunId_parsed {json : Json.Codec} {body : Bytes} {conf : RunConfigure}
    {members : List (String × Json.Value)} {v : Json.Value}
    (hroot : json.parse body = .object members) (hkey : members.lookup "run_id" = some v)
    (hparse : parseData json body = .ok conf) : CarriesRunId json body conf.runId := by
  obtain ⟨v', hget, huint⟩ := (parseData_ok_iff.mp hparse).runId
  have hv : v = v' := by simpa [hroot, Json.Value.get, hkey] using hget
  exact ⟨members, v, hroot, hkey, by rw [hv]; exact huint⟩

theorem carriesRunId_message {json : Json.Codec} {conf : RunConfigure}
    (hread : json.parse conf.message = conf.request) :
    CarriesRunId json conf.message conf.runId := by
  refine ⟨_, .int conf.runId.toNat, hread, ?_, asUInt_toNat conf.runId⟩
  simp [List.lookup]

namespace Phase

/-- The run id that is on its way into the reply. -/
def replyRunId : Phase → Option UInt32
  | decoded conf _ => some conf.runId
  | built job => some job.conf.runId
  | stored job => some job.conf.runId
  | opening job _ _ _ => some job.conf.runId
  | running job _ _ _ _ => some job.conf.runId
  | cleaning runId _ => some runId
  | replying _ results => some results.runId
  | _ => none

@[simp] theorem replyRunId_nextTest (job : Job) (rounds num : ℕ) (results : Results) :
    (nextTest job rounds num results).replyRunId = some job.conf.runId := by
  cases rounds <;> rfl

theorem replyRunId_inTask {p : Phase} (hp : p.inTask = true) : ∃ id, p.replyRunId = some id := by
  cases p with
  | waiting | replying | returned | blocked => simp [inTask] at hp
  | _ => exact ⟨_, rfl⟩

end Phase

/-- A task that is past its decoding is not refused: `buildEnv` returns true and the language is
a known one. Or its run id is the one that `Results` has from its constructor. -/
def TaskIdentified (p : Phase) (w : World) : Prop :=
  match p with
  | .decoded conf _ =>
    (¬ Unbuildable w.fs ∧ (constructJudger conf.codeType).isSome = true) ∨ conf.runId = 0
  | _ => True

theorem replied_runId (ok : Bool) (results : Results) :
    (Server.replied ok results).runId = results.runId := by
  cases ok <;> rfl

theorem advances_runId {host : Host} {p p' : Phase} {w w' : World} (h : Advances host p w p' w')
    (hp : TaskIdentified p w) : p'.replyRunId = p.replyRunId := by
  cases h with
  | refused conf tools w hun =>
    rcases hp with hbuilt | hzero
    · exact absurd hun hbuilt.1
    · simp [Phase.replyRunId, hzero]
  | unsupported conf tools w hbuild hnone =>
    rcases hp with hknown | hzero
    · simp [hnone] at hknown
    · simp [Phase.replyRunId, hzero]
  | compiled | passed => exact Phase.replyRunId_nextTest _ _ _ _
  | built | stored | rejected | opened | failed | cleaned => rfl

theorem finishTask_runId {host : Host} {runId : UInt32} {results results' : Results}
    {w w' : World} {ok : Bool} (h : finishTask host runId results w = .ok (ok, results', w')) :
    results'.runId = runId := by
  obtain ⟨_, rfl⟩ := finishTask_results h
  rfl

theorem compileAndRun_runId {host : Host} {judger : Judger} {conf : RunConfigure} {tools : Tools}
    {w w' : World} {ok : Bool} {results : Results}
    (h : compileAndRun host judger conf tools w = .ok (ok, results, w')) :
    results.runId = conf.runId := by
  obtain ⟨step, _, hrest⟩ := (call_bind_ok_iff _ _ _).mp h
  dsimp only at hrest
  split_ifs at hrest
  · exact finishTask_runId hrest
  · obtain ⟨_, _, hfinish⟩ := (call_bind_ok_iff _ _ _).mp hrest
    exact finishTask_runId hfinish

/-- The results of one task carry the run id of its request exactly when the task is not
refused, or the run id is 0. -/
theorem judgeTask_runId_iff {host : Host} {conf : RunConfigure} {tools : Tools} {w w' : World}
    {ok : Bool} {results : Results} (h : judgeTask host conf tools w = .ok (ok, results, w')) :
    (Server.replied ok results).runId = conf.runId ↔ TaskIdentified (.decoded conf tools) w := by
  rw [replied_runId]
  have hbuilt : ∃ built, buildEnv host w.fs conf.runId = .ok built := by
    obtain ⟨built, hbuilt, _⟩ := (call_bind_ok_iff _ _ _).mp h
    exact ⟨built, hbuilt⟩
  obtain ⟨built, hbuilt⟩ := hbuilt
  -- where `buildEnv` or `constructJudger` gives up the reply keeps the run id 0
  rcases buildEnv_returns hbuilt with hun | hbuild
  · rw [judgeTask_unbuildable w hun] at h
    have hresults := (Prod.mk.inj (Prod.mk.inj (Except.ok.inj h)).2).1
    rw [← hresults]
    exact ⟨fun hzero => Or.inr hzero.symm, fun hid => (hid.resolve_left fun hok => hok.1 hun).symm⟩
  · have hbuildable := buildable_not_unbuildable hbuild
    cases hjudger : constructJudger conf.codeType with
    | none =>
      rw [judgeTask_unsupported w hbuild hjudger] at h
      have hresults := (Prod.mk.inj (Prod.mk.inj (Except.ok.inj h)).2).1
      have hunknown : ¬ (constructJudger conf.codeType).isSome = true := by simp [hjudger]
      rw [← hresults]
      exact ⟨fun hzero => Or.inr hzero.symm,
        fun hid => (hid.resolve_left fun hok => hunknown hok.2).symm⟩
    | some judger =>
      rw [judgeTask_supported w hbuild hjudger] at h
      simp [compileAndRun_runId h, TaskIdentified, hbuildable, hjudger]

section Runs
variable {n : ℕ} (host : Host) (json : Json.Codec)

/-- Every message that is received is a request whose JSON carries a run id. -/
def CarriesIds (_ : Server n) : Action n → Prop
  | .receive _ msg _ => ∃ data members v, msg = some data ∧ json.parse data = .object members ∧
      members.lookup "run_id" = some v
  | _ => True

/-- No task is refused, unless its run id is 0. -/
def TasksIdentified (s : Server n) : Action n → Prop
  | .advance i => TaskIdentified (s.workers i).phase (s.world i)
  | _ => True

/-- The replies of a worker, and the one it is about to send, carry the run ids of the requests
that they answer. -/
structure RepliesIdentified (x : WorkerState) : Prop where
  sending : ∀ ok results, x.phase = .replying ok results →
    ∃ body, x.received[x.replies.length]? = some body ∧
      CarriesRunId json body (Server.replied ok results).runId
  sent : ∀ (j : ℕ) (reply : Bytes), x.replies[j]? = some reply →
    ∃ body results, x.received[j]? = some body ∧ reply = wrapData json results ∧
      CarriesRunId json body results.runId

/-- What keeps the replies of a worker identified. -/
structure Tracked (x : WorkerState) : Prop where
  idle : x.phase = .waiting → x.received.length = x.replies.length
  busy : ∀ runId, x.phase.replyRunId = some runId → x.received.length = x.replies.length+1 ∧
    ∃ body, x.received[x.replies.length]? = some body ∧ CarriesRunId json body runId
  sent : ∀ (j : ℕ) (reply : Bytes), x.replies[j]? = some reply →
    ∃ body results, x.received[j]? = some body ∧ reply = wrapData json results ∧
      CarriesRunId json body results.runId

variable {host json}

theorem Tracked.identified {x : WorkerState} (h : Tracked json x) : RepliesIdentified json x := by
  refine ⟨?_, h.sent⟩
  intro ok results hphase
  have hbusy := h.busy results.runId (by rw [hphase]; rfl)
  rw [replied_runId]
  exact hbusy.2

theorem tracked_abort {s : Server n} {i : Fin n} (e : Abort) (h : Tracked json (s.workers i)) :
    Tracked json ((s.abort i e).workers i) := by
  unfold Server.abort
  split_ifs
  · exact h
  · rw [Server.modify_self]
    exact ⟨by simp, by simp [Phase.replyRunId], h.sent⟩

theorem tracked_decode {s : Server n} {i : Fin n} {data : Bytes} {tools : Tools}
    {conf : RunConfigure} (hphase : (s.workers i).phase = .waiting)
    (hcarries : CarriesRunId json data conf.runId) (h : Tracked json (s.workers i)) :
    Tracked json ((s.decode i (some data) tools conf).workers i) := by
  have hlen := h.idle hphase
  unfold Server.decode
  rw [Server.modify_self]
  refine ⟨by simp, ?_, ?_⟩
  · intro runId hid
    have hrunId : conf.runId = runId := by simpa [Phase.replyRunId] using hid
    rw [← hrunId]
    refine ⟨by simp [hlen], data, by simp [← hlen], hcarries⟩
  · intro j reply hreply
    obtain ⟨body, results, hbody, hrest⟩ := h.sent j reply hreply
    have hj : j < (s.workers i).received.length := (List.getElem?_eq_some_iff.mp hbody).1
    refine ⟨body, results, ?_, hrest⟩
    rw [List.getElem?_append_left hj]
    exact hbody

/-- The worker goes on with its task, under the same run id. -/
theorem tracked_put {s : Server n} {i : Fin n} {p : Phase} {w : World}
    (hphase : (s.workers i).phase.inTask = true)
    (hid : p.replyRunId = (s.workers i).phase.replyRunId) (h : Tracked json (s.workers i)) :
    Tracked json ((s.put i p w).workers i) := by
  obtain ⟨id, hphaseId⟩ := Phase.replyRunId_inTask hphase
  have hp : p.replyRunId = some id := hid.trans hphaseId
  have hbusy := h.busy id hphaseId
  rw [Server.put_self]
  refine ⟨?_, ?_, h.sent⟩
  · intro hwait
    have hwaiting : p = .waiting := hwait
    simp [hwaiting, Phase.replyRunId] at hp
  · intro runId hrunId
    have hsame : id = runId := Option.some.inj (hp.symm.trans hrunId)
    rw [← hsame]
    exact hbusy

theorem tracked_answer {s : Server n} {i : Fin n} {ok : Bool} {results : Results}
    (hphase : (s.workers i).phase = .replying ok results) (h : Tracked json (s.workers i)) :
    Tracked json ((s.answer json i ok results).workers i) := by
  obtain ⟨hlen, body, hbody, hcarries⟩ := h.busy results.runId (by rw [hphase]; rfl)
  unfold Server.answer
  rw [Server.modify_self]
  refine ⟨fun _ => by simp [hlen], ?_, ?_⟩
  · intro runId hid
    cases ok <;> simp [Phase.replyRunId] at hid
  · intro j reply hreply
    by_cases hj : j < (s.workers i).replies.length
    · rw [List.getElem?_append_left hj] at hreply
      exact h.sent j reply hreply
    -- the reply that has just been sent is the last one
    · have hlast : j = (s.workers i).replies.length ∧
          reply = wrapData json (Server.replied ok results) := by
        rw [List.getElem?_append_right (not_lt.mp hj)] at hreply
        have hpos := (List.getElem?_eq_some_iff.mp hreply).1
        have hj' : j-(s.workers i).replies.length = 0 := by
          rw [List.length_singleton] at hpos
          omega
        rw [hj', List.getElem?_cons_zero, Option.some.injEq] at hreply
        exact ⟨by omega, hreply.symm⟩
      rw [hlast.1]
      refine ⟨body, Server.replied ok results, hbody, hlast.2, ?_⟩
      rw [replied_runId]
      exact hcarries

theorem tracked_step {s t : Server n} {a : Action n} (htracked : Tracked json (s.workers a.worker))
    (h : When (fun s a => CarriesIds json s a ∧ TasksIdentified s a)
      (Server.Steps host json) s a t) : Tracked json (t.workers a.worker) := by
  obtain ⟨⟨hcarries, htasks⟩, hstep⟩ := h
  obtain ⟨_, hcases⟩ := Server.step_cases hstep
  cases hcases with
  | decoded i msg tools conf hphase hparse =>
    obtain ⟨data, members, v, rfl, hroot, hkey⟩ := hcarries
    exact tracked_decode hphase (carriesRunId_parsed hroot hkey hparse) htracked
  | undecoded i msg tools e => exact tracked_abort e htracked
  | advanced i p w hphase hadv =>
    exact tracked_put hphase (advances_runId (advances_of_advance hphase hadv) htasks) htracked
  | failed i e => exact tracked_abort e htracked
  | answered i ok results hphase => exact tracked_answer hphase htracked
  | unsent i ok results hphase =>
    simp only [Action.worker, Server.modify_self]
    exact ⟨by simp, by simp [Phase.replyRunId], htracked.sent⟩
  | strayed i fs => exact htracked

/-- While no task is refused, every reply carries the run id of its request. -/
theorem replies_identified {s t : Server n} {acts : List (Action n)} (hstart : s.Started)
    (hrun : Run (When (fun s a => CarriesIds json s a ∧ TasksIdentified s a)
      (Server.Steps host json)) s acts t) (i : Fin n) :
    RepliesIdentified json (t.workers i) := by
  have hfresh : Tracked json {} := ⟨fun _ => rfl, by simp [Phase.replyRunId], by simp⟩
  have htracked := Server.worker_invariant hrun (Tracked json) hstart hfresh
    (fun s a t hs h => tracked_step hs h) i
  exact htracked.identified

end Runs

section Refused

/-- A task that is served is not refused. -/
theorem taskIdentified_of_served {n : ℕ} {host : Host} {s : Server n} {i : Fin n}
    (hs : Serving s) (h : NothingFails host s (.advance i)) :
    TaskIdentified (s.workers i).phase (s.world i) := by
  have hserves := hs.serves i
  have hcalls : CallsSucceed host (s.workers i).phase (s.world i) := h
  cases hphase : (s.workers i).phase with
  | decoded conf tools =>
    rw [hphase] at hserves hcalls
    exact Or.inl ⟨buildable_not_unbuildable hcalls, hserves⟩
  | _ => trivial

theorem replies_identified_ruby : ∃ (acts : List (Action 1)) (t : Server 1),
    Run (When (fun s a => CarriesIds rubyCodec s a ∧ TasksIdentified s a)
      (Server.Steps .standard rubyCodec)) freshServer acts t ∧
    (t.workers sole).replies = [wrapData rubyCodec rubyResults] ∧
    RepliesIdentified rubyCodec (t.workers sole) := by
  have hcarries : CarriesRunId rubyCodec rubyConf.message rubyConf.runId :=
    carriesRunId_message (by simp [rubyCodec, Json.Codec.ofDocuments])
  obtain ⟨members, v, hroot, hkey, _⟩ := hcarries
  obtain ⟨acts, t, hserved, hacts, _, hreplies, _⟩ := ruby_served
  have hrun : Run (When (fun s a => CarriesIds rubyCodec s a ∧ TasksIdentified s a)
      (Server.Steps .standard rubyCodec)) freshServer
      (.receive sole (some rubyConf.message) (.ofRuns slowFirst) :: acts) t := by
    apply hserved.strengthen Serving (started_serving freshServer_started)
    intro u a v ha hu h
    refine ⟨⟨?_, h.2⟩, served_step hu h⟩
    rcases List.mem_cons.mp ha with rfl | ha
    · exact ⟨⟨_, members, _, rfl, hroot, hkey⟩, trivial⟩
    · rcases hacts a ha with rfl | rfl
      · exact ⟨trivial, taskIdentified_of_served hu h.1.1⟩
      · exact ⟨trivial, trivial⟩
  exact ⟨_, t, hrun, hreplies, replies_identified freshServer_started hrun sole⟩

/-- The reply to a request for Pascal carries the run id 0 instead of 7. -/
theorem not_replies_identified :
    ¬ ∀ (n : ℕ) (host : Host) (json : Json.Codec) (s t : Server n) (acts : List (Action n)),
      s.Started → Run (When (CarriesIds json) (Server.Steps host json)) s acts t →
      ∀ i, RepliesIdentified json (t.workers i) := by
  intro hclaim
  have hcarries : CarriesRunId pascalCodec pascalConf.message pascalConf.runId :=
    carriesRunId_message (by simp [pascalCodec, Json.Codec.ofDocuments])
  obtain ⟨members, v, hroot, hkey, huint⟩ := hcarries
  have hreceive : When (CarriesIds pascalCodec) (Server.Steps .standard pascalCodec) freshServer
      (.receive sole (some pascalConf.message) (.ofRuns slowFirst)) pascalDecoded :=
    ⟨⟨_, members, v, rfl, hroot, hkey⟩, pascal_receive⟩
  have hadvance : When (CarriesIds pascalCodec) (Server.Steps .standard pascalCodec)
      pascalDecoded (.advance sole) pascalRefused :=
    ⟨trivial, pascal_advance⟩
  have hend := hclaim 1 .standard pascalCodec freshServer pascalRefused _ freshServer_started
    (.cons hreceive (.single hadvance)) sole
  obtain ⟨body, hbody, members', v', hroot', hkey', huint'⟩ :=
    hend.sending false {} pascalRefused_phase
  have hlast : body = pascalConf.message := by
    simpa [pascalRefused, pascalDecoded, freshServer, Server.decode, eq_comm] using hbody
  rw [hlast, hroot, Json.Value.object.injEq] at hroot'
  rw [← hroot', hkey, Option.some.injEq] at hkey'
  rw [← hkey', huint] at huint'
  simp [pascalConf, rubyConf, Server.replied] at huint'

end Refused

end OnlineJudge
