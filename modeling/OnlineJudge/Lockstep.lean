import OnlineJudge.InFlight
import OnlineJudge.RunId

/-! Clients with `REQ` sockets, which send a request only when the last one has been answered:
the replies come in the order of the requests. -/
namespace OnlineJudge
open Transition

section Prefix
variable {α : Type}

/-- Of a list with one element more than its prefix, that element is the next one. -/
theorem prefix_concat_of_mem {xs ys : List α} {x : α} (h : xs <+: ys)
    (hlen : ys.length ≤ xs.length+1) (hmem : x ∈ ys) (hnot : x ∉ xs) : ys = xs ++ [x] := by
  obtain ⟨rest, rfl⟩ := h
  have hrest : x ∈ rest := (List.mem_append.mp hmem).resolve_left hnot
  cases rest with
  | nil => simp at hrest
  | cons y rest =>
    have hnil : rest = [] := by
      apply List.eq_nil_of_length_eq_zero
      simp only [List.length_append, List.length_cons] at hlen
      omega
    rw [hnil, List.mem_singleton] at hrest
    rw [hnil, hrest]

end Prefix

namespace Network
variable {k n : ℕ}

/-- The requests of one client with their numbers, in the order in which it sent them. -/
def numbered (s : Network k n) (c : Fin k) : List (SentRequest k × ℕ) :=
  s.requests.zipIdx.filter (fun r => r.1.client = c)

def requestsOf (s : Network k n) (c : Fin k) : List (SentRequest k) :=
  s.requests.filter (fun r => r.client = c)

def deliveriesTo (s : Network k n) (c : Fin k) : List (Delivery k) :=
  s.delivered.filter (fun d => d.client = c)

theorem numbered_fst (s : Network k n) (c : Fin k) :
    (s.numbered c).map Prod.fst = s.requestsOf c := by
  have hzip : s.requests.zipIdx.map Prod.fst = s.requests := by simp
  rw [numbered, requestsOf]
  conv_rhs => rw [← hzip, List.filter_map]
  rfl

theorem numbered_length (s : Network k n) (c : Fin k) :
    (s.numbered c).length = (s.requestsOf c).length := by
  rw [← numbered_fst, List.length_map]

theorem mem_numbered {s : Network k n} {c : Fin k} {r : SentRequest k} {x : ℕ} :
    (r, x) ∈ s.numbered c ↔ s.requests[x]? = some r ∧ r.client = c := by
  rw [numbered, List.mem_filter, List.mem_zipIdx_iff_getElem?]
  simp

theorem numbered_send (s : Network k n) (c c' : Fin k) (m : Message Bytes) :
    (s.send c m).numbered c' =
      s.numbered c' ++ if c = c' then [(⟨c, m⟩, s.requests.length)] else [] := by
  have hzip : (s.send c m).requests.zipIdx =
      s.requests.zipIdx ++ [(⟨c, m⟩, s.requests.length)] := by
    simp [send, List.zipIdx_append]
  rw [numbered, hzip, List.filter_append, numbered]
  by_cases hc : c = c' <;> simp [hc]

end Network

section Order
variable {k n : ℕ} {identity : Fin k → Bytes} {host : Host} {json : Json.Codec}

/-- A `REQ` socket sends one request, and the next when that one has been answered. -/
def InTurn (s : Network k n) : NetAction k n → Prop
  | .send c m => m.FromReq ∧ (s.requestsOf c).length = (s.deliveriesTo c).length
  | _ => True

def InTurnSteps (identity : Fin k → Bytes) (host : Host) (json : Json.Codec)
    (s : Network k n) (a : NetAction k n) (t : Network k n) : Prop :=
  When InTurn (Network.Steps identity host json) s a t

/-- What a client has been given are replies to its first requests, to all but one of them at
least. -/
structure Ordered (s : Network k n) (c : Fin k) : Prop where
  answered : (s.deliveriesTo c).map Delivery.number <+:
    (s.numbered c).map (fun r => some r.2)
  ahead : (s.requestsOf c).length ≤ (s.deliveriesTo c).length+1

theorem carriedSteps_of_inTurn {s t : Network k n} {a : NetAction k n}
    (h : InTurnSteps identity host json s a t) : CarriedSteps identity host json s a t := by
  obtain ⟨hturn, hstep⟩ := h
  refine ⟨?_, hstep⟩
  cases a with
  | send c m => exact hturn.1
  | _ => trivial

theorem ordered_beside {s t : Network k n} {c : Fin k} (hs : Ordered s c)
    (hreq : t.requests = s.requests) (hdelivered : t.delivered = s.delivered) : Ordered t c := by
  obtain ⟨hanswered, hahead⟩ := hs
  constructor
  · simpa only [Network.deliveriesTo, Network.numbered, hreq, hdelivered] using hanswered
  · simpa only [Network.deliveriesTo, Network.requestsOf, hreq, hdelivered] using hahead

theorem ordered_send {s : Network k n} {c c' : Fin k} {m : Message Bytes}
    (hs : ∀ c, Ordered s c) (hturn : InTurn s (.send c m)) : Ordered (s.send c m) c' := by
  have hsame : (s.send c m).deliveriesTo c' = s.deliveriesTo c' := rfl
  constructor
  · rw [hsame, Network.numbered_send, List.map_append]
    exact (hs c').answered.trans (List.prefix_append _ _)
  · have hlen := congrArg List.length (Network.numbered_send s c c' m)
    rw [Network.numbered_length, List.length_append, Network.numbered_length] at hlen
    have hahead := (hs c').ahead
    rw [hlen, hsame]
    by_cases hc : c = c'
    · subst hc
      simp [hturn.2]
    · simpa [hc] using hahead

/-- The reply that is routed answers the one request of its client that is open. -/
theorem ordered_route {s : Network k n} {m : Message Frame} {rest : List (Message Frame)}
    (hid : Function.Injective identity) (hcarried : Carried identity host json s)
    (hcopies : ∀ x, s.copies x ≤ 1) (hqueue : s.relay.front.output.sent = m :: rest)
    (hs : ∀ c, Ordered s c) (c' : Fin k) : Ordered (s.route identity m rest) c' := by
  obtain ⟨number, r, hhead, hanswers⟩ := hcarried.routed.frontOut m (by simp [hqueue])
  -- the front socket routes by the frame that the request came with
  have hdest : Network.destination identity m.head.data = some r.client := by
    rw [hhead]
    exact destination_self hid r.client
  have hdelivered : (s.route identity m rest).delivered = s.delivered ++ [⟨r.client, m.tail⟩] := by
    simp [Network.route, hdest]
  by_cases hc : r.client = c'
  · subst hc
    have hto : (s.route identity m rest).deliveriesTo r.client =
        s.deliveriesTo r.client ++ [⟨r.client, m.tail⟩] := by
      simp [Network.deliveriesTo, hdelivered]
    have hnumber : Delivery.number (⟨r.client, m.tail⟩ : Delivery k) = some number :=
      answers_number hanswers
    -- the reply still on its way has not been delivered before: there is one copy of it
    have hopen : some number ∉ (s.deliveriesTo r.client).map Delivery.number := by
      intro hmem
      have hall : some number ∈ s.delivered.map Delivery.number := by
        obtain ⟨d, hd, hd'⟩ := List.mem_map.mp hmem
        exact List.mem_map.mpr ⟨d, List.mem_of_mem_filter hd, hd'⟩
      have hcount := List.count_pos_iff.mpr hall
      have hsent : 0 < copies number s.relay.front.output.sent := by
        rw [hqueue, copies_cons, copies_singleton, hhead]
        simp
      have hle := hcopies number
      unfold Network.copies at hle
      omega
    have hasked : some number ∈ (s.numbered r.client).map (fun r => some r.2) :=
      List.mem_map.mpr ⟨(r, number), Network.mem_numbered.mpr ⟨hanswers.asked, rfl⟩, rfl⟩
    -- so it answers the one request of the client that is still open
    have hlen : ((s.numbered r.client).map (fun r => some r.2)).length ≤
        ((s.deliveriesTo r.client).map Delivery.number).length+1 := by
      rw [List.length_map, List.length_map, Network.numbered_length]
      exact (hs r.client).ahead
    have hnext := prefix_concat_of_mem (hs r.client).answered hlen hasked hopen
    constructor
    · have hsame : (s.route identity m rest).numbered r.client = s.numbered r.client := rfl
      rw [hsame, hnext, hto, List.map_append, List.map_singleton, hnumber]
    · have hahead := (hs r.client).ahead
      rw [hto, List.length_append]
      exact hahead.trans (Nat.le_succ _)
  -- the other clients are delivered nothing
  · have hto : (s.route identity m rest).deliveriesTo c' = s.deliveriesTo c' := by
      simp [Network.deliveriesTo, hdelivered, hc]
    constructor
    · rw [hto]
      exact (hs c').answered
    · rw [hto]
      exact (hs c').ahead

theorem ordered_step (hid : Function.Injective identity) {s t : Network k n} {a : NetAction k n}
    (hcarried : Carried identity host json s) (hcopies : ∀ x, s.copies x ≤ 1)
    (hs : ∀ c, Ordered s c) (h : InTurnSteps identity host json s a t) (c : Fin k) :
    Ordered t c := by
  obtain ⟨hturn, hstep⟩ := h
  cases a with
  | send c' m =>
    obtain rfl : t = s.send c' m := hstep
    exact ordered_send hs hturn
  | route =>
    obtain ⟨m, rest, _, hqueue, rfl⟩ := hstep
    exact ordered_route hid hcarried hcopies hqueue hs c
  -- all other steps are hidden from the clients
  | _ =>
    obtain ⟨hreq, hdelivered⟩ := Network.step_quiet hstep (by simp) (by simp)
    exact ordered_beside (hs c) hreq hdelivered

/-- What a step of `REQ` clients keeps of the requests on their way and of their order. -/
theorem inTurn_step (hid : Function.Injective identity) (hne : ∀ c, identity c ≠ [])
    {s t : Network k n} {a : NetAction k n} (hcarried : Carried identity host json s)
    (hsingle : s.Single) (hordered : ∀ c, Ordered s c)
    (h : InTurnSteps identity host json s a t) :
    Carried identity host json t ∧ t.Single ∧ ∀ c, Ordered t c := by
  have hcopies : ∀ x, s.copies x ≤ 1 := by
    intro x
    have hx := hsingle x
    split_ifs at hx <;> omega
  exact ⟨carried_step hid hne hcarried (carriedSteps_of_inTurn h),
    single_step hcarried.routed hsingle h.2, ordered_step hid hcarried hcopies hordered h⟩

theorem started_ordered {s : Network k n} (hs : s.Started) (c : Fin k) : Ordered s c := by
  have hnone : s.delivered = [] := hs.2.2.2.2.2
  have hempty : s.requests = [] := hs.1
  constructor <;> simp [Network.deliveriesTo, Network.requestsOf, hnone, hempty]

theorem ordered_run (hid : Function.Injective identity) (hne : ∀ c, identity c ≠ [])
    {s t : Network k n} {acts : List (NetAction k n)} (hs : s.Started)
    (hrun : Run (InTurnSteps identity host json) s acts t) :
    Carried identity host json t ∧ t.Single ∧ ∀ c, Ordered t c := by
  exact hrun.invariant
    (fun s => Carried identity host json s ∧ s.Single ∧ ∀ c, Ordered s c)
    ⟨started_carried hs, started_single hs, started_ordered hs⟩
    (fun _ _ _ hs h => inTurn_step hid hne hs.1 hs.2.1 hs.2.2 h)

/-- The delivery in turn `j` is a reply to the request in turn `j`. -/
theorem ordered_delivery {s : Network k n} {c : Fin k} {j : ℕ} {d : Delivery k}
    (hcarried : Carried identity host json s) (hs : Ordered s c)
    (hd : (s.deliveriesTo c)[j]? = some d) :
    ∃ number r, (s.requestsOf c)[j]? = some r ∧
      Answers host json s.requests s.server.workers number r d.frames := by
  have hmem : d ∈ s.delivered := List.mem_of_mem_filter (List.mem_of_getElem? hd)
  obtain ⟨number, r, _, hanswers⟩ := hcarried.routed.delivered d hmem
  have hnumber : d.number = some number := answers_number hanswers
  have hturn : ((s.numbered c).map fun r => some r.2)[j]? = some (some number) := by
    apply prefix_getElem? hs.answered
    rw [List.getElem?_map, hd, Option.map_some, hnumber]
  -- the request with this number is the one in turn `j`
  rw [List.getElem?_map] at hturn
  obtain ⟨⟨r', x⟩, hr', hx⟩ := Option.map_eq_some_iff.mp hturn
  obtain rfl : x = number := Option.some.inj hx
  have hasked := (Network.mem_numbered.mp (List.mem_of_getElem? hr')).1
  obtain rfl : r = r' := Option.some.inj (hanswers.asked.symm.trans hasked)
  refine ⟨x, r, ?_, hanswers⟩
  rw [← Network.numbered_fst, List.getElem?_map, hr']
  rfl

theorem advance_idle {p p' : Phase} {w w' : World} (hp : p.inTask = false)
    (h : advance host p w = .ok (p', w')) : p' = p := by
  cases p with
  | waiting | replying | returned | blocked =>
    simp only [advance, Except.ok.injEq, Prod.mk.injEq] at h
    exact h.1.symm
  | _ => simp [Phase.inTask] at hp

/-- The calls of a task carry the run id along, until the task is refused. -/
theorem calls_runId {p p' : Phase} {id : UInt32} (h : Calls host p p')
    (hp : p.replyRunId = some id) : p'.replyRunId = some id ∨ p' = .replying false {} := by
  induction h with
  | refl => exact Or.inl hp
  | tail _ hstep ih =>
    obtain ⟨w, w', hadvance⟩ := hstep
    rename_i q q' _
    cases htask : q.inTask with
    | false =>
      rw [advance_idle htask hadvance]
      exact ih
    | true =>
      have hid : q.replyRunId = some id := by
        rcases ih with hid | rfl
        · exact hid
        · simp [Phase.inTask] at htask
      have hadv := advances_of_advance htask hadvance
      cases hadv with
      -- these two go to the reply without a result of any request
      | refused | unsupported => exact Or.inr rfl
      | compiled | passed =>
        left
        rw [Phase.replyRunId_nextTest]
        exact hid
      | built | stored | rejected | opened | failed | cleaned => exact Or.inl hid

theorem produces_runId {body reply : Bytes} (h : Produces host json body reply) :
    ∃ conf tools ok results, parseData json body = .ok conf ∧
      Calls host (.decoded conf tools) (.replying ok results) ∧
      reply = wrapData json (Server.replied ok results) ∧
      (results.runId = conf.runId ∨ ok = false ∧ results = {}) := by
  obtain ⟨conf, tools, ok, results, hparse, hcalls, hreply⟩ := h
  refine ⟨conf, tools, ok, results, hparse, hcalls, hreply, ?_⟩
  have hfirst : (Phase.decoded conf tools).replyRunId = some conf.runId := rfl
  rcases calls_runId hcalls hfirst with hid | hrefused
  · left
    exact Option.some.inj hid
  · right
    exact Phase.replying.inj hrefused

/-- A request is an empty frame and its body, and in its answer the reply of a worker takes the
place of the body. -/
theorem answers_request {s : Network k n} {number : ℕ} {r : SentRequest k} {frames : List Frame}
    (hcarried : Carried identity host json s)
    (h : Answers host json s.requests s.server.workers number r frames) :
    ∃ body reply i, r.message.tail = [body] ∧ frames.map Frame.data = [[], reply] ∧
      Serves host json (s.server.workers i) body reply := by
  obtain ⟨hasked, envelope, body, reply, i, hframes, hdata, hserves⟩ := h
  obtain ⟨hhead, body', htail⟩ := hcarried.fromReq r (List.mem_of_getElem? hasked)
  have hsplit : envelope ++ [body] = [[]] ++ [body'] := by
    rw [← hframes, Message.frames, hhead, htail]
    rfl
  obtain ⟨henvelope, hbody⟩ : envelope = [[]] ∧ body = body' := by
    simpa using List.append_inj' hsplit rfl
  refine ⟨body, reply, i, by rw [htail, hbody], ?_, hserves⟩
  rw [hdata, henvelope]
  simp

/-- With `REQ` clients, a client has at most one request open, and its reply number `j` is what
some worker, by the calls of `processTask`, made of its request number `j`. It has the run id of
that request, unless it was refused. -/
theorem replies_in_order (hid : Function.Injective identity) (hne : ∀ c, identity c ≠ [])
    {s t : Network k n} {acts : List (NetAction k n)} (hs : s.Started)
    (hrun : Run (InTurnSteps identity host json) s acts t) (c : Fin k) :
    (t.requestsOf c).length ≤ (t.deliveriesTo c).length+1 ∧
      ∀ (j : ℕ) (d : Delivery k), (t.deliveriesTo c)[j]? = some d →
        ∃ r body reply i, (t.requestsOf c)[j]? = some r ∧ r.message.tail = [body] ∧
          d.frames.map Frame.data = [[], reply] ∧
          Serves host json (t.server.workers i) body reply ∧
          ∃ conf tools ok results, parseData json body = .ok conf ∧
            Calls host (.decoded conf tools) (.replying ok results) ∧
            reply = wrapData json (Server.replied ok results) ∧
            (results.runId = conf.runId ∨ ok = false ∧ results = {}) := by
  obtain ⟨hcarried, _, hordered⟩ := ordered_run hid hne hs hrun
  refine ⟨(hordered c).ahead, ?_⟩
  intro j d hd
  obtain ⟨number, r, hr, hanswers⟩ := ordered_delivery hcarried (hordered c) hd
  obtain ⟨body, reply, i, htail, hframes, hserves⟩ := answers_request hcarried hanswers
  exact ⟨r, body, reply, i, hr, htail, hframes, hserves, produces_runId hserves.produced⟩

end Order

section OneClient

theorem oneClient_inTurn {s t : Network 1 1} {acts : List (NetAction 1 1)}
    (hrun : OneClientRun s acts t) (hsends : ∀ c m, .send c m ∉ acts) :
    Run (InTurnSteps oneClient .standard pascalCodec) s acts t := by
  apply hrun.mono_on
  intro s a t ha hstep
  refine ⟨?_, hstep⟩
  cases a with
  | send c m => exact absurd ha (hsends c m)
  | _ => trivial

theorem pascalDelivered_inTurn : Run (InTurnSteps oneClient .standard pascalCodec) freshNetwork
    ([.send 0 pascalRequest, .frontArrives 0, .round, .dispatch 0] ++
      ([.receive 0 (.ofRuns slowFirst), .advance 0, .reply 0] ++
        [.backArrives 0, .round, .route])) pascalDelivered := by
  cases pascal_forth with
  | cons hsend hforth =>
    have hturn : InTurn freshNetwork (.send sole pascalRequest) := ⟨pascalRequest_fromReq, rfl⟩
    apply Run.cons (⟨hturn, hsend⟩ : InTurnSteps oneClient .standard pascalCodec _ _ _)
    exact oneClient_inTurn (hforth.append (pascal_work.append pascal_home)) (by simp)

theorem replies_in_order_oneClient :
    (pascalDelivered.requestsOf sole).length ≤ (pascalDelivered.deliveriesTo sole).length+1 ∧
      ∀ (j : ℕ) (d : Delivery 1), (pascalDelivered.deliveriesTo sole)[j]? = some d →
        ∃ r body reply i, (pascalDelivered.requestsOf sole)[j]? = some r ∧
          r.message.tail = [body] ∧ d.frames.map Frame.data = [[], reply] ∧
          Serves .standard pascalCodec (pascalDelivered.server.workers i) body reply ∧
          ∃ conf tools ok results, parseData pascalCodec body = .ok conf ∧
            Calls .standard (.decoded conf tools) (.replying ok results) ∧
            reply = wrapData pascalCodec (Server.replied ok results) ∧
            (results.runId = conf.runId ∨ ok = false ∧ results = {}) :=
  replies_in_order oneClient_injective oneClient_ne freshNetwork_started pascalDelivered_inTurn
    sole

end OneClient

end OnlineJudge
