import OnlineJudge.Survival
import OnlineJudge.WorkDirs

/-! The server as a function: what is replied to a request depends on the request, the programs
of the machine and the test data, whatever was judged before it and is judged beside it. -/
namespace OnlineJudge
open Transition

/-- A machine on which nothing has been judged. -/
def freshWorld (data : TestData) : World where
  fs := ⟨.directory, fun _ => none, data⟩

/-- The reply to a message on such a machine. -/
def replyAlone (host : Host) (json : Json.Codec) (data : TestData) (tools : Tools)
    (msg : Bytes) : Call Bytes := do
  let (ok, results, _) ← processTask host json tools msg (freshWorld data)
  return wrapData json (Server.replied ok results)

theorem freshWorld_buildable (host : Host) (data : TestData) (runId : UInt32) :
    Buildable host (freshWorld data).fs runId := Or.inr ⟨rfl, Or.inl rfl⟩

section Alone
variable {n : ℕ} (host : Host) (json : Json.Codec) (tools : Tools)

/-- What is received is a message, the programs of the machine are these, and no task is
refused its directory. -/
def Undisturbed (s : Server n) : Action n → Prop
  | .receive _ msg tools' => msg ≠ none ∧ tools' = tools
  | .advance i => ∀ conf tools', (s.workers i).phase = .decoded conf tools' → ¬ Unbuildable s.fs
  | _ => True

/-- The steps of the pool, where tasks in flight have different run ids. -/
def AloneSteps (s : Server n) (a : Action n) (t : Server n) : Prop :=
  When (Undisturbed tools) (DistinctSteps host json) s a t

/-- The message that the worker is at work on. -/
structure Current (x : WorkerState) (body : Bytes) (conf : RunConfigure) : Prop where
  length : x.received.length = x.replies.length+1
  last : x.received[x.replies.length]? = some body
  parsed : parseData json body = .ok conf

/-- What worker `i` has replied is what it would reply on a fresh machine, and so is what its
task is on the way to. -/
structure RepliesAlone (data : TestData) (s : Server n) (i : Fin n) : Prop where
  idle : (s.workers i).phase = .waiting →
    (s.workers i).received.length = (s.workers i).replies.length
  begun : ∀ conf tools', (s.workers i).phase = .decoded conf tools' →
    tools' = tools ∧ ∃ body, Current json (s.workers i) body conf
  busy : (s.workers i).phase.Busy → (∀ conf tools', (s.workers i).phase ≠ .decoded conf tools') →
    ∃ body conf, Current json (s.workers i) body conf ∧
      Follows host (judgeTask host conf tools (freshWorld data)) i s
  sent : ∀ (j : ℕ) (reply : Bytes), (s.workers i).replies[j]? = some reply →
    ∃ body, (s.workers i).received[j]? = some body ∧
      replyAlone host json data tools body = .ok reply

variable {host json tools}

theorem replyAlone_judged {data : TestData} {body : Bytes} {conf : RunConfigure} {ok : Bool}
    {results : Results} {w : World} (hparse : parseData json body = .ok conf)
    (h : judgeTask host conf tools (freshWorld data) = .ok (ok, results, w)) :
    replyAlone host json data tools body = .ok (wrapData json (Server.replied ok results)) := by
  simp [replyAlone, processTask, hparse, h]

/-- The logs of a worker that has made no step, and a task that is still on its way. -/
theorem repliesAlone_other {data : TestData} {s t : Server n} {i : Fin n}
    (hs : RepliesAlone host json tools data s i) (hsame : t.workers i = s.workers i)
    (hfollows : ∀ out, Follows host out i s → Follows host out i t) :
    RepliesAlone host json tools data t i := by
  obtain ⟨hidle, hbegun, hbusy, hsent⟩ := hs
  rw [← hsame] at hidle hbegun hbusy hsent
  refine ⟨hidle, hbegun, ?_, hsent⟩
  intro hphase hnot
  obtain ⟨body, conf, hcurrent, hfollow⟩ := hbusy hphase hnot
  exact ⟨body, conf, hcurrent, hfollows _ hfollow⟩

theorem current_put {s : Server n} {i : Fin n} {body : Bytes} {conf : RunConfigure} {p : Phase}
    {w : World} (h : Current json (s.workers i) body conf) :
    Current json ((s.put i p w).workers i) body conf := by
  rw [Server.put_self]
  exact ⟨h.length, h.last, h.parsed⟩

/-- The first call of a task does on a fresh machine what it does here. -/
theorem advances_fresh {data : TestData} {conf : RunConfigure} {p : Phase} {w w' : World}
    (hdata : w.fs.data = data) (hbuild : ¬ Unbuildable w.fs)
    (h : Advances host (.decoded conf tools) w p w') :
    ∃ u', Advances host (.decoded conf tools) (freshWorld data) p u' ∧
      ∀ r, p.holds = some r → Agree r w' u' := by
  have hfresh := freshWorld_buildable host data conf.runId
  have hdata' := advances_data h
  -- `buildEnv` empties the directory, so what was in it before does not matter
  cases h with
  | refused _ _ _ hun => exact absurd hun hbuild
  | unsupported _ _ _ _ hnone =>
    exact ⟨_, .unsupported conf tools _ hfresh hnone, by simp [Phase.holds]⟩
  | built _ judger _ _ _ hjudger =>
    have hadv : Advances host (.decoded conf tools) (freshWorld data) _ _ :=
      .built conf judger tools _ hfresh hjudger
    refine ⟨_, hadv, ?_⟩
    intro r hr
    obtain rfl : conf.runId = r := by simpa [Phase.holds] using hr
    constructor
    · simp [World.built, builtFs]
    · rw [hdata', hdata, advances_data hadv]
      rfl

/-- A call that does not return leaves the logs of its worker, and ends its task or the
process. -/
theorem repliesAlone_abort {data : TestData} {s : Server n} {i : Fin n} (e : Abort)
    (hs : RepliesAlone host json tools data s i)
    (hfollows : ∀ out, Follows host out i s → Follows host out i (s.abort i e)) :
    RepliesAlone host json tools data (s.abort i e) i := by
  unfold Server.abort at hfollows ⊢
  split_ifs at hfollows ⊢
  · exact repliesAlone_other hs rfl hfollows
  · have hblocked : ((s.modify i fun x => { x with phase := .blocked }).workers i).phase =
        .blocked := by simp
    refine ⟨by simp, by simp, ?_, by simpa using hs.sent⟩
    rw [hblocked]
    simp [Phase.Busy, Phase.inTask]

theorem repliesAlone_receive {data : TestData} {s : Server n} {i : Fin n} {body : Bytes}
    {conf : RunConfigure} (hs : RepliesAlone host json tools data s i)
    (hphase : (s.workers i).phase = .waiting) (hparse : parseData json body = .ok conf) :
    RepliesAlone host json tools data (s.decode i (some body) tools conf) i := by
  have hlen := hs.idle hphase
  refine ⟨by simp [Server.decode], ?_, ?_, ?_⟩
  · intro conf' tools' hdecoded
    obtain ⟨rfl, rfl⟩ : conf = conf' ∧ tools = tools' := by
      simpa [Server.decode] using hdecoded
    refine ⟨rfl, body, ?_, ?_, hparse⟩
    · simp [Server.decode, hlen]
    · simp [Server.decode, ← hlen]
  · intro _ hnot
    exact absurd (by simp [Server.decode]) (hnot conf tools)
  · intro j reply hreply
    obtain ⟨body', hbody', halone⟩ := hs.sent j reply (by simpa [Server.decode] using hreply)
    have hj : j < (s.workers i).received.length := (List.getElem?_eq_some_iff.mp hbody').1
    refine ⟨body', ?_, halone⟩
    simp only [Server.decode, Server.modify_self]
    rw [List.getElem?_append_left hj]
    exact hbody'

/-- A call of the task leads on, here as on the fresh machine. -/
theorem repliesAlone_advance {data : TestData} {s t : Server n} {i : Fin n}
    (hexcl : Excluded s) (hdata : s.fs.data = data) (hs : RepliesAlone host json tools data s i)
    (h : AloneSteps host json tools s (.advance i) t) :
    RepliesAlone host json tools data t i := by
  obtain ⟨hundisturbed, hstep⟩ := h
  have hfollows : ∀ out, Follows host out i s → Follows host out i t :=
    fun out hfollow => follows_step hexcl hfollow hstep (fun _ => rfl)
  obtain ⟨_, hcases⟩ := Server.step_cases hstep.2
  cases hcases with
  | failed _ e hphase hadv => exact repliesAlone_abort e hs hfollows
  | advanced _ p w hphase hadv =>
    have hadv := advances_of_advance hphase hadv
    have hbusy := advances_busy hadv
    -- the first step of a task sees the world of a fresh process, and the later ones go on from it
    have hcurrent : ∃ body conf, Current json (s.workers i) body conf ∧
        Follows host (judgeTask host conf tools (freshWorld data)) i (s.put i p w) := by
      by_cases hbegun : ∃ conf tools', (s.workers i).phase = .decoded conf tools'
      · obtain ⟨conf, tools', hdecoded⟩ := hbegun
        obtain ⟨rfl, body, hcurrent⟩ := hs.begun conf tools' hdecoded
        have hbuild := hundisturbed conf tools' hdecoded
        rw [hdecoded] at hadv
        have hsame : (s.world i).fs.data = data := hdata
        obtain ⟨u', hadv', hagree⟩ := advances_fresh hsame hbuild hadv
        refine ⟨body, conf, hcurrent, ?_⟩
        apply follows_put (u := freshWorld data) hphase
        · rw [hdecoded]
          rfl
        · rw [hdecoded]
          exact hadv'
        · exact hagree
      · have hnot : ∀ conf tools', (s.workers i).phase ≠ .decoded conf tools' :=
          fun conf tools' hdecoded => hbegun ⟨conf, tools', hdecoded⟩
        obtain ⟨body, conf, hcurrent, hfollow⟩ := hs.busy (Or.inl hphase) hnot
        exact ⟨body, conf, hcurrent, hfollows _ hfollow⟩
    obtain ⟨body, conf, hcurrent, hfollow⟩ := hcurrent
    have hself : ((s.put i p w).workers i).phase = p := by simp
    -- a step of a task leads to a phase of the task or to its reply
    refine ⟨?_, ?_, ?_, by simpa using hs.sent⟩
    · intro hwait
      rw [hself] at hwait
      exact absurd (hwait ▸ hbusy) (by simp [Phase.Busy, Phase.inTask])
    · intro conf' tools' hdecoded
      rw [hself] at hdecoded
      exact absurd hdecoded (advances_ne_decoded hadv conf' tools')
    · intro _ _
      exact ⟨body, conf, current_put hcurrent, hfollow⟩

theorem repliesAlone_reply {data : TestData} {s t : Server n} {i : Fin n} {sent : Bool}
    (hs : RepliesAlone host json tools data s i)
    (h : Server.Steps host json s (.reply i sent) t) : RepliesAlone host json tools data t i := by
  obtain ⟨_, hcases⟩ := Server.step_cases h
  cases hcases with
  | unsent _ ok results hphase =>
    refine ⟨by simp, by simp, ?_, by simpa using hs.sent⟩
    simp [Phase.Busy, Phase.inTask]
  | answered _ ok results hphase =>
    obtain ⟨body, conf, hcurrent, hfollow⟩ :=
      hs.busy (Or.inr ⟨ok, results, hphase⟩) (by simp [hphase])
    obtain ⟨u, hout⟩ := hfollow.replying ok results hphase
    have halone := replyAlone_judged hcurrent.parsed hout
    refine ⟨?_, ?_, ?_, ?_⟩
    · intro _
      simp [Server.answer, hcurrent.length]
    · cases ok <;> simp [Server.answer]
    · cases ok <;> simp [Server.answer, Phase.Busy, Phase.inTask]
    · intro j reply hreply
      simp only [Server.answer, Server.modify_self] at hreply ⊢
      by_cases hj : j < (s.workers i).replies.length
      · rw [List.getElem?_append_left hj] at hreply
        exact hs.sent j reply hreply
      -- the reply that has just been sent
      · obtain rfl : j = (s.workers i).replies.length := by
          have hlt := (List.getElem?_eq_some_iff.mp hreply).1
          rw [List.length_append, List.length_singleton] at hlt
          omega
        rw [List.getElem?_concat_length, Option.some.injEq] at hreply
        exact ⟨body, hcurrent.last, hreply ▸ halone⟩

theorem step_data {s t : Server n} {a : Action n} (h : Server.Steps host json s a t)
    (hstray : a.isStray = false) : t.fs.data = s.fs.data := by
  rcases step_fs h hstray with ⟨hfs, _⟩ | ⟨p, w, _, _, hadv, rfl⟩
  · rw [hfs]
  · exact advances_data hadv

theorem repliesAlone_step {data : TestData} {s t : Server n} {a : Action n}
    (hexcl : Excluded s) (hdata : s.fs.data = data)
    (hs : ∀ i, RepliesAlone host json tools data s i) (h : AloneSteps host json tools s a t)
    (i : Fin n) : RepliesAlone host json tools data t i := by
  have hstray := h.2.1.2
  by_cases hi : a.worker = i
  · subst hi
    have hown := hs a.worker
    cases a with
    | advance i => exact repliesAlone_advance hexcl hdata hown h
    | reply i sent => exact repliesAlone_reply hown h.2.2
    | stray i fs => simp [Action.isStray] at hstray
    | receive i msg tools' =>
      obtain ⟨hmsg, rfl⟩ := h.1
      obtain ⟨body, rfl⟩ := Option.ne_none_iff_exists'.mp hmsg
      obtain ⟨_, hcases⟩ := Server.step_cases h.2.2
      cases hcases with
      | decoded _ _ _ conf hphase hparse => exact repliesAlone_receive hown hphase hparse
      | undecoded _ _ _ e hphase _ =>
        apply repliesAlone_abort e hown
        intro out _
        apply follows_idle
        unfold Server.abort
        split_ifs
        · exact Or.inl hphase
        · exact Or.inr (Or.inr (by simp))
  · apply repliesAlone_other (hs i) (Server.step_other h.2.2 (Ne.symm hi))
    exact fun out hfollow => follows_step hexcl hfollow h.2 (fun ha => absurd ha hi)

theorem started_repliesAlone {s : Server n} (hstart : s.Started) (i : Fin n) :
    RepliesAlone host json tools s.fs.data s i := by
  have hi := hstart.2 i
  refine ⟨by simp [hi], by simp [hi], ?_, by simp [hi]⟩
  simp [hi, Phase.Busy, Phase.inTask]

/-- In every run of the pool in which tasks in flight together have different run ids and none is
refused, every reply is the one that its message gets on a fresh machine: nothing that was judged
before it, or beside it, shows in it. -/
theorem replies_alone {s t : Server n} {acts : List (Action n)} (hstart : s.Started)
    (hrun : Run (AloneSteps host json tools) s acts t) (i : Fin n) (j : ℕ) (reply : Bytes)
    (hreply : (t.workers i).replies[j]? = some reply) :
    ∃ body, (t.workers i).received[j]? = some body ∧
      replyAlone host json s.fs.data tools body = .ok reply := by
  obtain ⟨_, _, hend⟩ := hrun.invariant
    (fun u => Excluded u ∧ u.fs.data = s.fs.data ∧
      ∀ i, RepliesAlone host json tools s.fs.data u i)
    ⟨started_excluded hstart, rfl, started_repliesAlone hstart⟩
    (fun u a v hu h => ⟨distinct_step hu.1 h.2, (step_data h.2.2 h.2.1.2).trans hu.2.1,
      repliesAlone_step hu.1 hu.2.1 hu.2.2 h⟩)
  exact (hend i).sent j reply hreply

end Alone

section Pascal

/-- The request for Pascal, answered. -/
def pascalReplied : Server 1 := pascalRefused.answer pascalCodec sole false {}

theorem pascalReplied_run :
    Run (AloneSteps .standard pascalCodec (.ofRuns slowFirst)) freshServer
      [.receive 0 (some pascalConf.message) (.ofRuns slowFirst), .advance 0, .reply 0 true]
      pascalReplied := by
  have hreceive : AloneSteps .standard pascalCodec (.ofRuns slowFirst) freshServer
      (.receive 0 (some pascalConf.message) (.ofRuns slowFirst)) pascalDecoded :=
    ⟨⟨by simp, rfl⟩, ⟨trivial, rfl⟩, pascal_receive⟩
  have hadvance : AloneSteps .standard pascalCodec (.ofRuns slowFirst) pascalDecoded
      (.advance 0) pascalRefused := by
    refine ⟨?_, ⟨?_, rfl⟩, pascal_advance⟩
    · intro conf tools _
      exact buildable_not_unbuildable pascalDecoded_buildable
    · intro conf tools _ j hj
      exact absurd (Subsingleton.elim j 0) hj
  exact .cons hreceive (.cons hadvance (.single ⟨trivial, ⟨trivial, rfl⟩, pascal_reply⟩))

theorem replies_alone_pascal :
    ∃ body, (pascalReplied.workers sole).received[0]? = some body ∧
      replyAlone .standard pascalCodec freshServer.fs.data (.ofRuns slowFirst) body =
        .ok (wrapData pascalCodec (Server.replied false {})) := by
  have hreply : (pascalReplied.workers sole).replies[0]? =
      some (wrapData pascalCodec (Server.replied false {})) := by
    simp [pascalReplied, Server.answer, pascalRefused, pascalDecoded, Server.decode, freshServer]
  exact replies_alone freshServer_started pascalReplied_run sole 0 _ hreply

end Pascal

end OnlineJudge
