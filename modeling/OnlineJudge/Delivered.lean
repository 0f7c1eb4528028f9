import OnlineJudge.Answering
import OnlineJudge.EndToEnd

/-! The verdicts that reach the clients, while the workers are shared with others. -/
namespace OnlineJudge
open Transition

section Delivered
variable {k n : ℕ} {identity : Fin k → Bytes} {host : Host} {json : Json.Codec} {tools : Tools}

theorem replyAlone_served {data : TestData} {body : Bytes} {conf : RunConfigure} {judger : Judger}
    {runs : List TestRun} (hparse : parseData json body = .ok conf)
    (hjudger : constructJudger conf.codeType = some judger)
    (hserved : TaskServed host tools data conf judger runs) :
    replyAlone host json data tools body =
      .ok (wrapData json { finalResults host judger conf runs {} with runId := conf.runId }) := by
  have hbuild := freshWorld_buildable host data conf.runId
  exact replyAlone_judged hparse (judgeTask_served (freshWorld data) hbuild hjudger hserved)

/-- What a client is told about a request that can be judged are its run id and the verdict of its
own tests: `kAC` when each of them lets the loop go on and the last is within its limits. -/
theorem verdict_delivered (hid : Function.Injective identity) (hne : ∀ c, identity c ≠ [])
    {s t : Network k n} {acts : List (NetAction k n)} (hs : s.Started)
    (hrun : Run (EndToEndSteps identity host json tools) s acts t) {c : Fin k} {j : ℕ}
    {r : SentRequest k} {body : Bytes} {conf : RunConfigure} {judger : Judger}
    {runs : List TestRun} (hr : (t.requestsOf c)[j]? = some r) (hbody : r.message.tail = [body])
    (hparse : parseData json body = .ok conf)
    (hjudger : constructJudger conf.codeType = some judger) (hrounds : 0 < conf.runTimes.toNat)
    (hserved : TaskServed host tools s.server.fs.data conf judger runs) {d : Delivery k}
    (hd : (t.deliveriesTo c)[j]? = some d) :
    ∃ results, d.frames.map Frame.data = [[], wrapData json results] ∧
      results.runId = conf.runId ∧
      (results.judgeResult = .kAC ↔
        (∀ t ∈ runs, t.Passes host judger conf.executeCondtion) ∧
          ∀ t ∈ runs.getLast?, t.Limited host judger conf.executeCondtion) := by
  have hne' : runs ≠ [] := by
    intro hnil
    have hlen := hserved.length
    rw [hnil, List.length_nil] at hlen
    omega
  -- reply `j` answers request `j`, with what `replyAlone` makes of its body
  obtain ⟨events, hobserved⟩ := hrun.observed (Network.seen identity)
  obtain ⟨u, _, hend⟩ := refines_run hid hne hs hobserved
  obtain ⟨r', hr', body', reply, hbody', hfunction, hframes⟩ :=
    answered_alone hend.carried (hend.ordered c) hend.alone hd
  obtain rfl : r = r' := Option.some.inj (hr.symm.trans hr')
  obtain rfl : body = body' := by simpa [hbody] using hbody'
  rw [replyAlone_served hparse hjudger hserved, Except.ok.injEq] at hfunction
  refine ⟨_, by rw [hframes, ← hfunction], rfl, ?_⟩
  exact finalResults_accepted_iff host judger conf runs {} hne'

/-- Where every request has been answered, each client has been given as many replies as it has
sent requests. -/
theorem deliveriesTo_length {s : Network k n} {c : Fin k} (hcarried : Carried identity host json s)
    (hordered : Ordered s c)
    (hall : ∀ x < s.requests.length, some x ∈ s.delivered.map Delivery.number) :
    (s.deliveriesTo c).length = (s.requestsOf c).length := by
  have hle : (s.deliveriesTo c).length ≤ (s.requestsOf c).length := by
    have hprefix := hordered.answered.length_le
    rwa [List.length_map, List.length_map, Network.numbered_length] at hprefix
  have hnodup : ((s.numbered c).map fun r => some r.2).Nodup := by
    have hsublist : ((s.numbered c).map Prod.snd).Sublist (s.requests.zipIdx.map Prod.snd) :=
      List.filter_sublist.map Prod.snd
    rw [List.zipIdx_map_snd] at hsublist
    have hnumbers := hsublist.nodup List.nodup_range'
    have hmap := hnumbers.map (Option.some_injective ℕ)
    rwa [List.map_map] at hmap
  have hsubset : (s.numbered c).map (fun r => some r.2) ⊆
      (s.deliveriesTo c).map Delivery.number := by
    intro number hnumber
    obtain ⟨⟨r, x⟩, hr, rfl⟩ := List.mem_map.mp hnumber
    obtain ⟨hasked, hclient⟩ := Network.mem_numbered.mp hr
    have hx : x < s.requests.length := (List.getElem?_eq_some_iff.mp hasked).1
    obtain ⟨d, hd, hdx⟩ := List.mem_map.mp (hall x hx)
    obtain ⟨y, r', hclient', hanswers⟩ := hcarried.routed.delivered d hd
    -- what has the number of the request is a reply to it
    obtain rfl : y = x := Option.some.inj ((answers_number hanswers).symm.trans hdx)
    obtain rfl : r = r' := Option.some.inj (hasked.symm.trans hanswers.asked)
    refine List.mem_map.mpr ⟨d, List.mem_filter.mpr ⟨hd, ?_⟩, hdx⟩
    simpa [hclient'] using hclient
  have hge := (List.subperm_of_subset hnodup hsubset).length_le
  rw [List.length_map, List.length_map, Network.numbered_length] at hge
  omega

/-- The steps of the program as a service that are not new requests, while nothing fails. -/
def JudgingSteps (identity : Fin k → Bytes) (host : Host) (json : Json.Codec) (tools : Tools)
    (s : Network k n) (a : NetAction k n) (t : Network k n) : Prop :=
  When (NetServed host json) (EndToEndSteps identity host json tools) s a t

theorem netServed_of_judging {s t : Network k n} {a : NetAction k n}
    (h : JudgingSteps identity host json tools s a t) : NetServedSteps identity host json s a t :=
  ⟨h.1, h.2.2.2⟩

/-- Once the clients send nothing more, the program makes at most `workLeft` steps of its own; and
where it can make no other, every client has the answer of the service to each of its requests, in
turn. -/
theorem all_judged (hid : Function.Injective identity) (hne : ∀ c, identity c ≠ [])
    (hn : 0 < n) {s t u : Network k n} {acts acts' : List (NetAction k n)} (hs : s.Started)
    (hrun : Run (JudgingSteps identity host json tools) s acts t)
    (hrun' : Run (When Draining (JudgingSteps identity host json tools)) t acts' u) :
    acts'.countP (fun a => a.isStray = false) ≤ t.workLeft json ∧
      (CanDrain identity host json u ∨ ∀ c,
      (u.deliveriesTo c).length = (u.requestsOf c).length ∧
      ∀ (j : ℕ) (r : SentRequest k), (u.requestsOf c)[j]? = some r →
        ∃ d, (u.deliveriesTo c)[j]? = some d ∧
          AnsweredAlone host json tools s.server.fs.data r.message (d.frames.map Frame.data)) := by
  -- the same run, as the three results about it read it
  have hserved : Run (NetServedSteps identity host json) s acts t :=
    hrun.mono_on fun _ _ _ _ h => netServed_of_judging h
  have hdraining : Run (DrainingSteps identity host json) t acts' u :=
    hrun'.mono_on fun _ _ _ _ h => ⟨h.1, netServed_of_judging h.2⟩
  have hwhole : Run (EndToEndSteps identity host json tools) s (acts ++ acts') u :=
    (hrun.mono_on fun _ _ _ _ h => h.2).append (hrun'.mono_on fun _ _ _ _ h => h.2.2)
  refine ⟨draining_length hid hne hs hserved hdraining, ?_⟩
  by_cases hdrain : CanDrain identity host json u
  · exact Or.inl hdrain
  right
  intro c
  obtain ⟨events, hobserved⟩ := hwhole.observed (Network.seen identity)
  obtain ⟨v, _, hend⟩ := refines_run hid hne hs hobserved
  -- once nothing can be drained each request has its one reply
  have hall : ∀ x < u.requests.length, some x ∈ u.delivered.map Delivery.number := by
    intro x hx
    apply List.count_pos_iff.mp
    rw [drained_answered hid hne hn hs hserved hdraining hdrain x hx]
    exact Nat.one_pos
  have hlength := deliveriesTo_length hend.carried (hend.ordered c) hall
  refine ⟨hlength, ?_⟩
  intro j r hr
  have hj : j < (u.deliveriesTo c).length := by
    rw [hlength]
    exact (List.getElem?_eq_some_iff.mp hr).1
  have hd := List.getElem?_eq_getElem hj
  obtain ⟨r', hr', hanswered⟩ := answered_alone hend.carried (hend.ordered c) hend.alone hd
  obtain rfl : r = r' := Option.some.inj (hr.symm.trans hr')
  exact ⟨_, hd, hanswered⟩

end Delivered

section Ruby

theorem judging_of_draining {s t : Network 1 1} {a : NetAction 1 1}
    (h : DrainingSteps oneClient .standard rubyCodec s a t) (hstray : a.isStray = false)
    (htools : ∀ i tools, a = .receive i tools → tools = .ofRuns slowFirst) :
    JudgingSteps oneClient .standard rubyCodec (.ofRuns slowFirst) s a t := by
  obtain ⟨hdrain, hserved, hstep⟩ := h
  have hbuild : ∀ i, a = .advance i → ∀ conf tools, (s.server.workers i).phase =
      .decoded conf tools → ¬ Unbuildable s.server.fs := by
    rintro i rfl conf tools hphase
    have hcalls : CallsSucceed .standard (s.server.workers i).phase (s.server.world i) := hserved
    rw [hphase] at hcalls
    exact buildable_not_unbuildable hcalls
  have hturn : InTurn s a := by
    cases a with
    | send c m => exact absurd hdrain id
    | _ => trivial
  exact ⟨hserved, sole_alone hstray htools hbuild, hturn, hstep⟩

theorem ruby_asked : JudgingSteps oneClient .standard rubyCodec (.ofRuns slowFirst) freshNetwork
    (.send sole rubyRequest) rubyAsked :=
  ⟨rubyRequest_servable, sole_alone rfl (by simp) (by simp),
    ⟨rubyRequest_servable.fromReq, rfl⟩, rfl⟩

/-- The request is judged, and its reply delivered. -/
theorem ruby_judging : ∃ (acts : List (NetAction 1 1)) (t : Network 1 1),
    Run (When Draining (JudgingSteps oneClient .standard rubyCodec (.ofRuns slowFirst))) rubyAsked
      acts t ∧ t.requests = [⟨sole, rubyRequest⟩] ∧
    t.delivered = [⟨sole, [⟨[], 0⟩, ⟨wrapData rubyCodec rubyResults, 0⟩]⟩] ∧ Drained t := by
  obtain ⟨acts, t, hrun, hacts, ht⟩ := ruby_delivered
  refine ⟨acts, t, hrun.mono_on ?_, ht⟩
  intro u a v ha h
  exact ⟨h.1, judging_of_draining h (hacts a ha).1 (hacts a ha).2⟩

theorem verdict_delivered_ruby :
    ∃ (acts : List (NetAction 1 1)) (t : Network 1 1) (d : Delivery 1) (results : Results),
      Run (EndToEndSteps oneClient .standard rubyCodec (.ofRuns slowFirst)) freshNetwork acts t ∧
      (t.deliveriesTo sole)[0]? = some d ∧
      d.frames.map Frame.data = [[], wrapData rubyCodec results] ∧ results.runId = 7 ∧
      (results.judgeResult = .kAC ↔
        (∀ t ∈ [slowFirst 0, slowFirst 1],
          t.Passes .standard .judgeRuby rubyConf.executeCondtion) ∧
        ∀ t ∈ [slowFirst 0, slowFirst 1].getLast?,
          t.Limited .standard .judgeRuby rubyConf.executeCondtion) := by
  obtain ⟨acts, t, hjudging, hrequests, hdelivered, _⟩ := ruby_judging
  have hrun : Run (EndToEndSteps oneClient .standard rubyCodec (.ofRuns slowFirst)) freshNetwork
      (.send sole rubyRequest :: acts) t :=
    .cons ruby_asked.2 (hjudging.mono_on fun _ _ _ _ h => h.2.2)
  have hr : (t.requestsOf sole)[0]? = some ⟨sole, rubyRequest⟩ := by
    rw [Network.requestsOf, hrequests]
    rfl
  have hd : (t.deliveriesTo sole)[0]? =
      some ⟨sole, [⟨[], 0⟩, ⟨wrapData rubyCodec rubyResults, 0⟩]⟩ := by
    rw [Network.deliveriesTo, hdelivered]
    rfl
  obtain ⟨results, hframes, hrunId, hverdict⟩ :=
    verdict_delivered oneClient_injective oneClient_ne freshNetwork_started hrun hr rfl
      parseData_ruby rfl (by decide) slowFirst_served hd
  exact ⟨_, t, _, results, hrun, hd, hframes, hrunId, hverdict⟩

theorem all_judged_ruby : ∃ (acts : List (NetAction 1 1)) (t : Network 1 1),
    Run (When Draining (JudgingSteps oneClient .standard rubyCodec (.ofRuns slowFirst))) rubyAsked
      acts t ∧ ¬ CanDrain oneClient .standard rubyCodec t ∧
    t.delivered = [⟨sole, [⟨[], 0⟩, ⟨wrapData rubyCodec rubyResults, 0⟩]⟩] ∧
    acts.countP (fun a => a.isStray = false) ≤ rubyAsked.workLeft rubyCodec ∧
    (CanDrain oneClient .standard rubyCodec t ∨ ∀ c,
      (t.deliveriesTo c).length = (t.requestsOf c).length ∧
      ∀ (j : ℕ) (r : SentRequest 1), (t.requestsOf c)[j]? = some r →
        ∃ d, (t.deliveriesTo c)[j]? = some d ∧
          AnsweredAlone .standard rubyCodec (.ofRuns slowFirst) freshNetwork.server.fs.data
            r.message (d.frames.map Frame.data)) := by
  obtain ⟨acts, t, hrun, _, hdelivered, hdrained⟩ := ruby_judging
  exact ⟨acts, t, hrun, drained_not_canDrain hdrained, hdelivered,
    all_judged oneClient_injective oneClient_ne (by decide) freshNetwork_started
      (.single ruby_asked) hrun⟩

end Ruby

end OnlineJudge
