import OnlineJudge.Alone
import OnlineJudge.Lockstep
import OnlineJudge.Service

/-! The whole program as its clients see it: a service that answers every message with a function
of it. -/
namespace OnlineJudge
open Transition

section Seen
variable {k n : ℕ}

/-- What the clients send and what they are given. -/
def Network.seen (identity : Fin k → Bytes) (s : Network k n) :
    NetAction k n → List (Service.Event (Fin k) (Message Bytes) (List Bytes))
  | .send c m => [.ask c m]
  | .route =>
    match s.relay.front.output.sent with
    | [] => []
    | m :: _ =>
      (Network.destination identity m.head.data).toList.map
        fun c => .answer c (m.tail.map Frame.data)
  | _ => []

end Seen

section Refinement
variable {k n : ℕ} (identity : Fin k → Bytes) (host : Host) (json : Json.Codec) (tools : Tools)

/-- A step of the pool that disturbs no task. -/
def Alone (s : Network k n) (a : NetAction k n) : Prop :=
  ∀ b, s.poolAction a = some b →
    Undisturbed tools s.server b ∧ FreshRunId s.server b ∧ b.isStray = false

/-- The steps of the program with `REQ` clients, where tasks in flight have different run ids, and
programs write into the work directory of their own task only. -/
def EndToEndSteps (s : Network k n) (a : NetAction k n) (t : Network k n) : Prop :=
  When (Alone tools) (InTurnSteps identity host json) s a t

/-- The answer to a message of one frame is what one worker replies to it on a fresh machine. -/
def AnsweredAlone (data : TestData) (m : Message Bytes) (frames : List Bytes) : Prop :=
  ∃ body reply, m.tail = [body] ∧ replyAlone host json data tools body = .ok reply ∧
    frames = [[], reply]

/-- The service has the requests open that have not been answered. -/
def Waiting (s : Network k n) (u : Fin k → Option (Message Bytes)) : Prop :=
  ∀ c, ((s.requestsOf c).drop (s.deliveriesTo c).length).map SentRequest.message = (u c).toList

/-- The network beside a service with these open questions. -/
structure Refines (data : TestData) (s : Network k n) (u : Fin k → Option (Message Bytes)) :
    Prop where
  carried : Carried identity host json s
  single : s.Single
  ordered : ∀ c, Ordered s c
  excluded : Excluded s.server
  kept : s.server.fs.data = data
  alone : ∀ i, RepliesAlone host json tools data s.server i
  waiting : Waiting s u

variable {identity host json tools}

/-- What a client is given was replied by some worker to the request in turn. -/
theorem answered_alone {data : TestData} {s : Network k n} {c : Fin k} {j : ℕ} {d : Delivery k}
    (hcarried : Carried identity host json s) (hordered : Ordered s c)
    (halone : ∀ i, RepliesAlone host json tools data s.server i)
    (hd : (s.deliveriesTo c)[j]? = some d) :
    ∃ r, (s.requestsOf c)[j]? = some r ∧
      AnsweredAlone host json tools data r.message (d.frames.map Frame.data) := by
  obtain ⟨number, r, hr, hanswers⟩ := ordered_delivery hcarried hordered hd
  obtain ⟨body, reply, i, htail, hframes, hserves⟩ := answers_request hcarried hanswers
  obtain ⟨turn, hbody, hreply⟩ := hserves.turn
  obtain ⟨body', hbody', hfunction⟩ := (halone i).sent turn reply hreply
  obtain rfl : body = body' := Option.some.inj (hbody.symm.trans hbody')
  exact ⟨r, hr, body, reply, htail, hfunction, hframes⟩

theorem refines_pool {data : TestData} {s t : Network k n} {a : NetAction k n}
    (hexcluded : Excluded s.server) (hkept : s.server.fs.data = data)
    (halone : ∀ i, RepliesAlone host json tools data s.server i)
    (h : EndToEndSteps identity host json tools s a t) :
    Excluded t.server ∧ t.server.fs.data = data ∧
      ∀ i, RepliesAlone host json tools data t.server i := by
  obtain ⟨hundisturbed, _, hstep⟩ := h
  rcases Network.step_pool hstep with hsame | ⟨b, hb, hserver⟩
  · rw [hsame]
    exact ⟨hexcluded, hkept, halone⟩
  · obtain ⟨hpermitted, hfresh, hstray⟩ := hundisturbed b hb
    have hdistinct : DistinctSteps host json s.server b t.server := ⟨⟨hfresh, hstray⟩, hserver⟩
    refine ⟨distinct_step hexcluded hdistinct, (step_data hserver hstray).trans hkept, ?_⟩
    exact repliesAlone_step hexcluded hkept halone ⟨hpermitted, hdistinct⟩

theorem seen_quiet {s : Network k n} {a : NetAction k n} (hsend : ∀ c m, a ≠ .send c m)
    (hroute : a ≠ .route) : s.seen identity a = [] := by
  cases a with
  | send c m => exact absurd rfl (hsend c m)
  | route => exact absurd rfl hroute
  | _ => rfl

/-- The request that a client sends is its open question. -/
theorem waiting_send {s : Network k n} {u : Fin k → Option (Message Bytes)} {c : Fin k}
    {m : Message Bytes} (hu : Waiting s u) (hturn : InTurn s (.send c m)) :
    u c = none ∧ Waiting (s.send c m) (Function.update u c (some m)) := by
  -- a `REQ` client sends once all its requests have been answered
  have hopen : u c = none := by
    have hc := hu c
    rw [List.drop_of_length_le hturn.2.le, List.map_nil] at hc
    simpa using hc.symm
  refine ⟨hopen, ?_⟩
  intro c'
  have hdelivered : (s.send c m).deliveriesTo c' = s.deliveriesTo c' := rfl
  by_cases hc : c' = c
  · subst hc
    have hrequests : (s.send c' m).requestsOf c' = s.requestsOf c' ++ [⟨c', m⟩] := by
      simp [Network.send, Network.requestsOf]
    rw [hrequests, hdelivered, ← hturn.2, Function.update_self]
    simp
  · have hrequests : (s.send c m).requestsOf c' = s.requestsOf c' := by
      simp [Network.send, Network.requestsOf, Ne.symm hc]
    rw [hrequests, hdelivered, Function.update_of_ne hc]
    exact hu c'

/-- The delivery that is routed answers the open question of its client. -/
theorem waiting_route {data : TestData} {s : Network k n} {u : Fin k → Option (Message Bytes)}
    {m : Message Frame} {rest : List (Message Frame)} {c : Fin k}
    (hs : Refines identity host json tools data s u)
    (hcarried : Carried identity host json (s.route identity m rest))
    (hordered : ∀ c, Ordered (s.route identity m rest) c)
    (hdest : Network.destination identity m.head.data = some c) :
    ∃ question, u c = some question ∧
      AnsweredAlone host json tools data question (m.tail.map Frame.data) ∧
      Waiting (s.route identity m rest) (Function.update u c none) := by
  have hrequests : ∀ c', (s.route identity m rest).requestsOf c' = s.requestsOf c' := fun _ => rfl
  have hdelivered : (s.route identity m rest).delivered = s.delivered ++ [⟨c, m.tail⟩] := by
    simp [Network.route, hdest]
  have hto : (s.route identity m rest).deliveriesTo c = s.deliveriesTo c ++ [⟨c, m.tail⟩] := by
    simp [Network.deliveriesTo, hdelivered]
  have hturn : ((s.route identity m rest).deliveriesTo c)[(s.deliveriesTo c).length]? =
      some ⟨c, m.tail⟩ := by
    rw [hto, List.getElem?_concat_length]
  obtain ⟨r, hr, hanswered⟩ := answered_alone hcarried (hordered c) hs.alone hturn
  rw [hrequests] at hr
  -- the request in this turn is the last one
  have hahead := (hs.ordered c).ahead
  have hlast : (s.requestsOf c).drop ((s.deliveriesTo c).length+1) = [] :=
    List.drop_of_length_le hahead
  have hdrop : (s.requestsOf c).drop (s.deliveriesTo c).length = [r] := by
    obtain ⟨hlt, hget⟩ := List.getElem?_eq_some_iff.mp hr
    rw [List.drop_eq_getElem_cons hlt, hget, hlast]
  have hopen : u c = some r.message := by
    have hc := hs.waiting c
    rw [hdrop] at hc
    simpa using hc.symm
  refine ⟨r.message, hopen, hanswered, ?_⟩
  intro c'
  rw [hrequests]
  by_cases hc : c' = c
  · subst hc
    rw [hto, List.length_append, List.length_singleton, hlast, Function.update_self]
    rfl
  · have hother : (s.route identity m rest).deliveriesTo c' = s.deliveriesTo c' := by
      simp [Network.deliveriesTo, hdelivered, Ne.symm hc]
    rw [hother, Function.update_of_ne hc]
    exact hs.waiting c'

/-- A step of the program is what the service does with what is seen of it. -/
theorem refines_step (hid : Function.Injective identity) (hne : ∀ c, identity c ≠ [])
    {data : TestData} {s t : Network k n} {a : NetAction k n}
    {u : Fin k → Option (Message Bytes)} (hs : Refines identity host json tools data s u)
    (h : EndToEndSteps identity host json tools s a t) :
    ∃ v, Run (Service.Steps (AnsweredAlone host json tools data)) u (s.seen identity a) v ∧
      Refines identity host json tools data t v := by
  obtain ⟨hexcluded, hkept, halone⟩ := refines_pool hs.excluded hs.kept hs.alone h
  obtain ⟨hcarried, hsingle, hordered⟩ :=
    inTurn_step hid hne hs.carried hs.single hs.ordered h.2
  have hrefines : ∀ {v}, Waiting t v → Refines identity host json tools data t v :=
    fun hv => ⟨hcarried, hsingle, hordered, hexcluded, hkept, halone, hv⟩
  obtain ⟨_, hturn, hstep⟩ := h
  -- a client asks, a client is answered, or the service does nothing
  by_cases hsend : ∃ c m, a = .send c m
  · obtain ⟨c, m, rfl⟩ := hsend
    obtain rfl : t = s.send c m := hstep
    obtain ⟨hopen, hv⟩ := waiting_send hs.waiting hturn
    exact ⟨_, .single ⟨hopen, rfl⟩, hrefines hv⟩
  · by_cases hroute : a = .route
    · subst hroute
      obtain ⟨m, rest, _, hqueue, rfl⟩ := hstep
      obtain ⟨number, r, hhead, _⟩ := hs.carried.routed.frontOut m (by simp [hqueue])
      have hdest : Network.destination identity m.head.data = some r.client := by
        rw [hhead]
        exact destination_self hid r.client
      obtain ⟨question, hopen, hanswered, hv⟩ := waiting_route hs hcarried hordered hdest
      refine ⟨_, ?_, hrefines hv⟩
      have hseen : s.seen identity .route = [.answer r.client (m.tail.map Frame.data)] := by
        simp [Network.seen, hqueue, hdest]
      rw [hseen]
      exact .single ⟨question, hopen, hanswered, rfl⟩
    · have hquiet : ∀ c m, a ≠ .send c m := fun c m ha => hsend ⟨c, m, ha⟩
      obtain ⟨hreq, hdelivered⟩ := Network.step_quiet hstep hquiet hroute
      have hseen : s.seen identity a = [] := seen_quiet hquiet hroute
      refine ⟨u, by rw [hseen]; exact .nil u, hrefines ?_⟩
      intro c
      have hc := hs.waiting c
      simpa only [Network.requestsOf, Network.deliveriesTo, hreq, hdelivered] using hc

theorem refines_run (hid : Function.Injective identity) (hne : ∀ c, identity c ≠ [])
    {s t : Network k n} {acts : List (NetAction k n)}
    {events : List (Service.Event (Fin k) (Message Bytes) (List Bytes))} (hs : s.Started)
    (hrun : Observed (EndToEndSteps identity host json tools) (Network.seen identity) s acts
      events t) :
    ∃ u, Run (Service.Steps (AnsweredAlone host json tools s.server.fs.data)) (fun _ => none)
      events u ∧ Refines identity host json tools s.server.fs.data t u := by
  obtain ⟨hreq, _, _, _, hserver, hdelivered⟩ := id hs
  have hstart : Refines identity host json tools s.server.fs.data s fun _ => none := by
    refine ⟨started_carried hs, started_single hs, started_ordered hs, started_excluded hserver,
      rfl, started_repliesAlone hserver, ?_⟩
    intro c
    simp [Network.requestsOf, hreq]
  exact hrun.simulate (Refines identity host json tools s.server.fs.data) hstart
    (fun _ _ _ _ hs h => refines_step hid hne hs h)

/-- With `REQ` clients and programs that do the same for the same request, and as long as tasks in
flight together have different run ids and write into their own directories only, what passes
between the clients and the program passes between them and a service that answers each message
with the reply of one worker that has never judged anything before. -/
theorem network_refines_service (hid : Function.Injective identity) (hne : ∀ c, identity c ≠ [])
    {s t : Network k n} {acts : List (NetAction k n)}
    {events : List (Service.Event (Fin k) (Message Bytes) (List Bytes))} (hs : s.Started)
    (hrun : Observed (EndToEndSteps identity host json tools) (Network.seen identity) s acts
      events t) :
    ∃ u, Run (Service.Steps (AnsweredAlone host json tools s.server.fs.data)) (fun _ => none)
      events u := by
  obtain ⟨u, hservice, _⟩ := refines_run hid hne hs hrun
  exact ⟨u, hservice⟩

end Refinement

section OneClient

/-- Where there is one worker, nothing but its directory and its programs can disturb a task. -/
theorem sole_alone {tools : Tools} {s : Network 1 1} {a : NetAction 1 1}
    (hstray : a.isStray = false) (htools : ∀ i tools', a = .receive i tools' → tools' = tools)
    (hbuild : ∀ i, a = .advance i → ∀ conf tools', (s.server.workers i).phase =
      .decoded conf tools' → ¬ Unbuildable s.server.fs) : Alone tools s a := by
  intro b hb
  -- with one worker there is no task beside
  cases a with
  | receive i tools' =>
    cases hqueue : (s.reps i).inbox with
    | nil => simp [Network.poolAction, hqueue] at hb
    | cons m rest =>
      simp only [Network.poolAction, hqueue, Option.map_eq_some_iff] at hb
      obtain ⟨held, _, rfl⟩ := hb
      exact ⟨⟨by simp, htools i tools' rfl⟩, trivial, rfl⟩
  | advance i =>
    obtain rfl : .advance i = b := by simpa [Network.poolAction] using hb
    refine ⟨hbuild i rfl, ?_, rfl⟩
    intro conf tools' _ j hj
    exact absurd (Subsingleton.elim j i) hj
  | reply i =>
    obtain rfl : .reply i true = b := by simpa [Network.poolAction] using hb
    exact ⟨trivial, trivial, rfl⟩
  | stray i fs => simp [NetAction.isStray] at hstray
  | _ => simp [Network.poolAction] at hb

/-- The steps in which no client and no worker takes part. -/
def NetAction.carries {k n : ℕ} : NetAction k n → Bool
  | .frontArrives _ | .round | .dispatch _ | .backArrives _ => true
  | _ => false

abbrev OneClientObserved (json : Json.Codec) : Network 1 1 → List (NetAction 1 1) →
    List (Service.Event (Fin 1) (Message Bytes) (List Bytes)) → Network 1 1 → Prop :=
  Observed (EndToEndSteps oneClient .standard json (.ofRuns slowFirst)) (Network.seen oneClient)

theorem carried_quietly {json : Json.Codec} {s t : Network 1 1} {acts : List (NetAction 1 1)}
    (hrun : Run (Network.Steps oneClient .standard json) s acts t)
    (hcarries : ∀ a ∈ acts, a.carries = true) : OneClientObserved json s acts [] t := by
  apply Observed.of_quiet hrun
  intro s a t ha hstep
  have hcarry := hcarries a ha
  have hquiet : a.isStray = false ∧ (∀ i tools, a ≠ .receive i tools) ∧ ∀ i, a ≠ .advance i := by
    cases a <;> simp_all [NetAction.carries, NetAction.isStray]
  obtain ⟨hstray, hreceive, hadvance⟩ := hquiet
  have halone : Alone (.ofRuns slowFirst) s a :=
    sole_alone hstray (fun i tools ha => absurd ha (hreceive i tools))
      (fun i ha => absurd ha (hadvance i))
  cases a with
  | frontArrives c | round | dispatch i | backArrives i => exact ⟨⟨halone, trivial, hstep⟩, rfl⟩
  | _ => simp [NetAction.carries] at hcarry

theorem pascalForth_observed :
    OneClientObserved pascalCodec freshNetwork
      [.send sole pascalRequest, .frontArrives 0, .round, .dispatch 0]
      [.ask sole pascalRequest] pascalDispatched := by
  cases pascal_forth with
  | cons hsend hforth =>
    have hquiet := carried_quietly hforth (by simp [NetAction.carries])
    have halone : Alone (.ofRuns slowFirst) freshNetwork (.send sole pascalRequest) :=
      sole_alone rfl (by simp) (by simp)
    have hall := Observed.cons ⟨halone, ⟨pascalRequest_fromReq, rfl⟩, hsend⟩ hquiet
    exact hall

theorem pascalWork_observed :
    OneClientObserved pascalCodec pascalDispatched
      [.receive 0 (.ofRuns slowFirst), .advance 0, .reply 0] [] pascalAnswered := by
  let received := pascalDispatched.receive 0 pascalHeld [] pascalDecoded
  have hreceive : EndToEndSteps oneClient .standard pascalCodec (.ofRuns slowFirst)
      pascalDispatched (.receive 0 (.ofRuns slowFirst)) received := by
    have hstep : Network.Steps oneClient .standard pascalCodec pascalDispatched
        (.receive 0 (.ofRuns slowFirst)) received :=
      ⟨pascalWire, [], pascalHeld, pascalDecoded, rfl, rfl, pascal_receive, rfl⟩
    exact ⟨sole_alone rfl (by simp) (by simp), trivial, hstep⟩
  have hadvance : EndToEndSteps oneClient .standard pascalCodec (.ofRuns slowFirst) received
      (.advance 0) { received with server := pascalRefused } := by
    refine ⟨sole_alone rfl (by simp) ?_, trivial, _, pascal_advance, rfl⟩
    intro i _ conf tools _
    exact buildable_not_unbuildable pascalDecoded_buildable
  have hreply : EndToEndSteps oneClient .standard pascalCodec (.ofRuns slowFirst)
      { received with server := pascalRefused } (.reply 0) pascalAnswered := by
    have hstep : Network.Steps oneClient .standard pascalCodec
        { received with server := pascalRefused } (.reply 0) pascalAnswered :=
      ⟨pascalHeld, false, {}, _, rfl, rfl, pascalRefused_phase, pascal_reply, rfl⟩
    exact ⟨sole_alone rfl (by simp) (by simp), trivial, hstep⟩
  exact .cons hreceive (.cons hadvance (.cons hreply (.nil _)))

theorem pascalHome_observed :
    OneClientObserved pascalCodec pascalAnswered [.backArrives 0, .round, .route]
      [.answer sole [[], systemError]] pascalDelivered := by
  let back := pascalAnswered.backArrives sole (pascalHeld.reply systemError) []
  let relayed : Network 1 1 := { back with relay := back.relay.next }
  have hcarried : OneClientRun pascalAnswered [.backArrives 0, .round] relayed := by
    refine .cons ⟨_, _, rfl, rfl, rfl⟩ (.single ?_)
    exact ⟨_, rfl, round_working ⟨rfl, rfl, rfl, rfl⟩, rfl⟩
  have hroute : EndToEndSteps oneClient .standard pascalCodec (.ofRuns slowFirst) relayed .route
      pascalDelivered :=
    ⟨sole_alone rfl (by simp) (by simp), trivial, _, _, rfl, rfl, rfl⟩
  have hquiet := carried_quietly hcarried (by simp [NetAction.carries])
  have hall := hquiet.append (.cons hroute (.nil pascalDelivered))
  exact hall

/-- The client asks, and is answered as the service answers. -/
theorem network_refines_service_oneClient :
    ∃ u, Run (Service.Steps (AnsweredAlone .standard pascalCodec (.ofRuns slowFirst)
      freshNetwork.server.fs.data)) (fun _ => none)
      [.ask sole pascalRequest, .answer sole [[], systemError]] u :=
  network_refines_service oneClient_injective oneClient_ne freshNetwork_started
    (pascalForth_observed.append (pascalWork_observed.append pascalHome_observed))

end OneClient

end OnlineJudge
