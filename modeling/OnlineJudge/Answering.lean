import OnlineJudge.InFlight

/-! How long the network works: every step that is not a new request brings some request nearer
to its reply, and none stops before all are answered. -/
namespace OnlineJudge
open Transition

/-- A request of a `REQ` client that a worker understands, in a supported language. -/
def Message.Servable (json : Json.Codec) (m : Message Bytes) : Prop :=
  m.head = [] ∧ ∃ body conf, m.tail = [body] ∧ parseData json body = .ok conf ∧
    (constructJudger conf.codeType).isSome = true

theorem Message.Servable.fromReq {json : Json.Codec} {m : Message Bytes} (h : m.Servable json) :
    m.FromReq := by
  obtain ⟨hhead, body, _, htail, _⟩ := h
  exact ⟨hhead, body, htail⟩

namespace Place

/-- The hops to the client that are left. -/
def hopsLeft : Place → ℕ
  | uplink => 8
  | frontIn => 7
  | backOut => 6
  | inbox => 5
  | held => 4
  | outbox => 3
  | backIn => 2
  | frontOut => 1
  | delivered => 0

/-- The request has still to be worked on. -/
def toWorker : Place → Bool
  | uplink => true
  | frontIn => true
  | backOut => true
  | inbox => true
  | _ => false

end Place

section Network
variable {k n : ℕ} (identity : Fin k → Bytes) (host : Host) (json : Json.Codec)

/-- The steps of a worker on this request. -/
def SentRequest.steps (r : SentRequest k) : ℕ :=
  match r.message.tail with
  | [body] =>
    match parseData json body with
    | .ok conf => 2*conf.runTimes.toNat+5
    | .error _ => 0
  | _ => 0

def placeWork (requests : List (SentRequest k)) (p : Place) (x : ℕ) : ℕ :=
  p.hopsLeft+if p.toWorker then (requests[x]?).elim 0 (SentRequest.steps json) else 0

/-- The hops of all requests that are left, and the steps of the workers. -/
def Network.workLeft (s : Network k n) : ℕ :=
  s.load (placeWork json s.requests)+∑ i, (s.server.workers i).phase.stepsLeft

/-- Every request can be served, and no system call inside a task fails. -/
def NetServed (s : Network k n) : NetAction k n → Prop
  | .send _ m => m.Servable json
  | .advance i => CallsSucceed host (s.server.workers i).phase (s.server.world i)
  | _ => True

def NetServedSteps (s : Network k n) (a : NetAction k n) (t : Network k n) : Prop :=
  When (NetServed host json) (Network.Steps identity host json) s a t

/-- Nothing new is sent, and `zmq_poll` returns when a socket of the relay is readable. -/
def Draining (s : Network k n) : NetAction k n → Prop
  | .send _ _ => False
  | .round => s.relay.front.input.readable = true ∨ s.relay.back.input.readable = true
  | _ => True

structure Live (s : Network k n) : Prop where
  carried : Carried identity host json s
  serving : Serving s.server
  servable : ∀ r ∈ s.requests, r.message.Servable json

variable {identity host json}

theorem started_live {s : Network k n} (h : s.Started) : Live identity host json s := by
  have hcarried : Carried identity host json s := started_carried h
  obtain ⟨hreq, _, _, _, hserver, _⟩ := h
  exact ⟨hcarried, started_serving hserver, by simp [hreq]⟩

/-- What a worker is given is a request that it can serve. -/
theorem live_receive (hne : ∀ c, identity c ≠ []) {s : Network k n}
    (hs : Live identity host json s) {i : Fin n} {m : Message Frame}
    (hm : m ∈ (s.reps i).inbox) :
    ∃ number r held conf, s.requests[number]? = some r ∧ m.head.origin = number ∧
      splitEnvelope m.head m.tail = some held ∧ parseData json held.body.data = .ok conf ∧
      (constructJudger conf.codeType).isSome = true ∧
      r.steps json = 2*conf.runTimes.toNat+5 := by
  have hreq := (hs.carried.routed.reps i).inbox m hm
  obtain ⟨number, r, body, hr, htail, hsplit⟩ :=
    splitEnvelope_request hne hs.carried.fromReq hreq
  obtain ⟨_, body', conf, htail', hparse, hsome⟩ :=
    hs.servable r (List.mem_of_getElem? hr)
  obtain rfl : body = body' := by simpa [htail] using htail'
  have hhead := (splitEnvelope_some hsplit).1
  refine ⟨number, r, _, conf, hr, ?_, hsplit, hparse, hsome, ?_⟩
  · rw [← hhead]
  · simp [SentRequest.steps, htail, hparse]

/-- What a step of the network does to the server: nothing, or a step that serves. -/
theorem server_step (hne : ∀ c, identity c ≠ []) {s t : Network k n} {a : NetAction k n}
    (hs : Live identity host json s) (h : NetServedSteps identity host json s a t) :
    t.server = s.server ∨ ∃ b, ServedSteps host json s.server b t.server := by
  obtain ⟨hserved, hstep⟩ := h
  rcases Network.step_pool hstep with hsame | ⟨b, hb, hserver⟩
  · exact Or.inl hsame
  · right
    refine ⟨b, ?_, hserver⟩
    cases a with
    | receive i tools =>
      obtain ⟨m, rest, held, server, hqueue, hsplit, _, _⟩ := hstep
      obtain ⟨_, _, held', conf, _, _, hsplit', hparse, hsome, _⟩ :=
        live_receive hne hs (by simp [hqueue] : m ∈ (s.reps i).inbox)
      obtain rfl : held = held' := Option.some.inj (hsplit.symm.trans hsplit')
      obtain rfl : .receive i (some held.body.data) tools = b := by
        simpa [Network.poolAction, hqueue, hsplit] using hb
      exact ⟨trivial, _, conf, rfl, hparse, hsome⟩
    | advance i =>
      obtain rfl : .advance i = b := by simpa [Network.poolAction] using hb
      exact ⟨hserved, trivial⟩
    | reply i =>
      obtain rfl : .reply i true = b := by simpa [Network.poolAction] using hb
      exact ⟨rfl, trivial⟩
    | stray i fs =>
      obtain rfl : .stray i fs = b := by simpa [Network.poolAction] using hb
      exact ⟨trivial, trivial⟩
    | _ => simp [Network.poolAction] at hb

theorem carriedSteps_of_served {s t : Network k n} {a : NetAction k n}
    (h : NetServedSteps identity host json s a t) : CarriedSteps identity host json s a t := by
  obtain ⟨hserved, hstep⟩ := h
  refine ⟨?_, hstep⟩
  cases a with
  | send c m => exact hserved.fromReq
  | _ => trivial

theorem live_step (hid : Function.Injective identity) (hne : ∀ c, identity c ≠ [])
    {s t : Network k n} {a : NetAction k n} (hs : Live identity host json s)
    (h : NetServedSteps identity host json s a t) : Live identity host json t := by
  have hcarried := carried_step hid hne hs.carried (carriedSteps_of_served h)
  have hserving : Serving t.server := by
    rcases server_step hne hs h with hsame | ⟨b, hb⟩
    · rw [hsame]
      exact hs.serving
    · exact served_step hs.serving hb
  refine ⟨hcarried, hserving, ?_⟩
  by_cases hsend : ∃ c m, a = .send c m
  · obtain ⟨c, m, rfl⟩ := hsend
    obtain rfl : t = s.send c m := h.2
    intro r hr
    rcases List.mem_append.mp hr with hr | hr
    · exact hs.servable r hr
    · rw [List.mem_singleton.mp hr]
      exact h.1
  · have hreq := Network.step_requests h.2 (fun c m ha => hsend ⟨c, m, ha⟩)
    rw [hreq]
    exact hs.servable

/-- The steps that are left, over all workers, change with the worker that makes one. -/
theorem stepsLeft_step {s t : Server n} {a : Action n} (h : Server.Steps host json s a t) :
    ∑ j, (t.workers j).phase.stepsLeft+(s.workers a.worker).phase.stepsLeft =
      ∑ j, (s.workers j).phase.stepsLeft+(t.workers a.worker).phase.stepsLeft := by
  have hupdate : t.workers = Function.update s.workers a.worker (t.workers a.worker) := by
    ext1 j
    by_cases hj : j = a.worker
    · rw [hj, Function.update_self]
    · rw [Function.update_of_ne hj, Server.step_other h hj]
  have hsum := sum_update (fun x : WorkerState => x.phase.stepsLeft) s.workers a.worker
    (t.workers a.worker)
  rwa [← hupdate] at hsum

/-- A hop that no worker makes brings a message nearer to the client. -/
theorem placeWork_hop (requests : List (SentRequest k)) {p q : Place} (x : ℕ)
    (hpq : q.hopsLeft < p.hopsLeft) (hworker : q.toWorker = p.toWorker) :
    placeWork json requests q x < placeWork json requests p x := by
  unfold placeWork
  rw [hworker]
  omega

/-- The steps by which the network gets through what has been sent. -/
def DrainingSteps (identity : Fin k → Bytes) (host : Host) (json : Json.Codec)
    (s : Network k n) (a : NetAction k n) (t : Network k n) : Prop :=
  When Draining (NetServedSteps identity host json) s a t

section Hops
variable (json) (requests : List (SentRequest k)) {src dst : Place} (queue : List (Message Frame))
  (hpq : dst.hopsLeft < src.hopsLeft) (hworker : dst.toWorker = src.toWorker)
include hpq hworker

theorem firstHop_less (hqueue : queue ≠ []) :
    hopLoad (placeWork json requests) Hop.dst (firstHop src dst queue) <
      hopLoad (placeWork json requests) Hop.src (firstHop src dst queue) := by
  cases queue with
  | nil => exact absurd rfl hqueue
  | cons m queue =>
    have hlt : placeWork json requests dst m.head.origin <
        placeWork json requests src m.head.origin :=
      placeWork_hop requests m.head.origin hpq hworker
    simpa only [firstHop_cons, hopLoad_singleton] using hlt

theorem firstHop_le :
    hopLoad (placeWork json requests) Hop.dst (firstHop src dst queue) ≤
      hopLoad (placeWork json requests) Hop.src (firstHop src dst queue) := by
  by_cases hqueue : queue = []
  · simp [hqueue, firstHop]
  · exact (firstHop_less json requests queue hpq hworker hqueue).le

end Hops

theorem readable_queue {input : InSock Frame} (hpending : input.pending = [])
    (h : input.readable = true) : input.queue ≠ [] := by
  simpa [InSock.readable, hpending] using h

/-- A hop that goes past all workers, and leaves the server as it is. -/
theorem work_beside {s t : Network k n} (hreq : t.requests = s.requests)
    (hserver : t.server = s.server) {hops : List Hop}
    (hload : t.load (placeWork json s.requests)+hopLoad (placeWork json s.requests) Hop.src hops =
      s.load (placeWork json s.requests)+hopLoad (placeWork json s.requests) Hop.dst hops)
    (hless : hopLoad (placeWork json s.requests) Hop.dst hops <
      hopLoad (placeWork json s.requests) Hop.src hops) :
    t.workLeft json < s.workLeft json := by
  unfold Network.workLeft
  rw [hreq, hserver]
  omega

theorem work_step (hid : Function.Injective identity) (hne : ∀ c, identity c ≠ [])
    {s t : Network k n} {a : NetAction k n} (hs : Live identity host json s)
    (h : DrainingSteps identity host json s a t) (hstray : a.isStray = false) :
    t.workLeft json < s.workLeft json := by
  obtain ⟨hdrain, hserved, hstep⟩ := h
  have hsend : ∀ c m, a ≠ .send c m := by
    rintro c m rfl
    exact hdrain
  obtain ⟨hreq, hload⟩ := load_step (placeWork json s.requests) hid hne hs.carried hstep hsend
  cases a with
  | send c m => exact absurd rfl (hsend c m)
  | frontArrives c =>
    obtain ⟨m, rest, _, hqueue, rfl⟩ := hstep
    exact work_beside hreq rfl hload
      (firstHop_less json s.requests (s.uplinks c) (by decide) rfl (by simp [hqueue]))
  | round =>
    obtain ⟨relay, _, _, rfl⟩ := hstep
    have hforward : Place.backOut.hopsLeft < Place.frontIn.hopsLeft := by decide
    have hhome : Place.frontOut.hopsLeft < Place.backIn.hopsLeft := by decide
    have hforth := firstHop_le json s.requests s.relay.front.input.queue hforward rfl
    have hback := firstHop_le json s.requests s.relay.back.input.queue hhome rfl
    -- one of the sockets is readable, and a message goes on from it
    refine work_beside hreq rfl hload ?_
    simp only [Network.hops, hopLoad_append]
    rcases hdrain with hfront | hfront
    · have hqueue := readable_queue hs.carried.routed.clean.frontIn hfront
      have hless := firstHop_less json s.requests s.relay.front.input.queue hforward rfl hqueue
      omega
    · have hqueue := readable_queue hs.carried.routed.clean.backIn hfront
      have hless := firstHop_less json s.requests s.relay.back.input.queue hhome rfl hqueue
      omega
  | dispatch i =>
    obtain ⟨m, rest, _, hqueue, rfl⟩ := hstep
    exact work_beside hreq rfl hload (firstHop_less json s.requests s.relay.back.output.sent
      (by decide) rfl (by simp [hqueue]))
  | discard i => exact absurd hstep (not_discards hne hs.carried)
  | receive i tools =>
    obtain ⟨m, rest, held, server, hqueue, hsplit, hserver, rfl⟩ := hstep
    obtain ⟨number, r, held', conf, hr, horigin, hsplit', hparse, _, hsteps⟩ :=
      live_receive hne hs (by simp [hqueue] : m ∈ (s.reps i).inbox)
    obtain rfl : held = held' := Option.some.inj (hsplit.symm.trans hsplit')
    have hsum := stepsLeft_step hserver
    obtain ⟨_, hcases⟩ := Server.step_cases hserver
    cases hcases with
    | undecoded _ _ _ e _ hfail => simp [hparse] at hfail
    | decoded _ _ _ conf' hphase hparse' =>
      obtain rfl : conf = conf' := by simpa [hparse] using hparse'
      have hwait : (s.server.workers i).phase.stepsLeft = 0 := by
        rw [hphase]
        rfl
      have hbegun : ((s.server.decode i (some held.body.data) tools conf).workers
          i).phase.stepsLeft = 2*conf.runTimes.toNat+5 := by
        simp [Server.decode, Phase.stepsLeft]
      -- the work on the request goes over from its place to the worker
      simp only [Network.hops, hqueue, firstHop_cons, hopLoad_singleton, placeWork,
        Place.hopsLeft, Place.toWorker, if_true, horigin, hr, Option.elim_some, hsteps,
        Bool.false_eq_true, if_false] at hload
      simp only [Action.worker, hwait, hbegun] at hsum
      simp only [Network.workLeft]
      rw [hreq]
      simp only [Network.receive] at hload ⊢
      omega
  | advance i =>
    obtain ⟨server, hserver, rfl⟩ := hstep
    have hsum := stepsLeft_step hserver
    have hlt := served_step_stepsLeft hs.serving (⟨⟨hserved, trivial⟩, hserver⟩ :
      ServedSteps host json s.server (.advance i) server) rfl
    simp only [Network.hops, hopLoad_nil] at hload
    simp only [Network.workLeft]
    omega
  | reply i =>
    obtain ⟨held, ok, results, server, hheld, _, _, hserver, rfl⟩ := hstep
    have hsum := stepsLeft_step hserver
    have hlt := served_step_stepsLeft hs.serving (⟨⟨rfl, trivial⟩, hserver⟩ :
      ServedSteps host json s.server (.reply i true) server) rfl
    simp only [Network.hops, hheld, Option.toList_some, List.map_cons, List.map_nil,
      hopLoad_singleton, placeWork, Place.hopsLeft, Place.toWorker, Bool.false_eq_true,
      if_false] at hload
    simp only [Network.workLeft]
    rw [hreq]
    simp only [Network.reply] at hload ⊢
    omega
  | backArrives i =>
    obtain ⟨m, rest, _, hqueue, rfl⟩ := hstep
    exact work_beside hreq rfl hload
      (firstHop_less json s.requests (s.reps i).outbox (by decide) rfl (by simp [hqueue]))
  | route =>
    obtain ⟨m, rest, _, hqueue, rfl⟩ := hstep
    exact work_beside hreq rfl hload (firstHop_less json s.requests s.relay.front.output.sent
      (by decide) rfl (by simp [hqueue]))
  | stray i fs => simp [NetAction.isStray] at hstray

/-- What a program does to the files brings no message further, and none back. -/
theorem work_stray {s t : Network k n} {a : NetAction k n}
    (h : Network.Steps identity host json s a t) (hstray : a.isStray = true) :
    t.workLeft json = s.workLeft json := by
  cases a with
  | stray i fs =>
    obtain ⟨server, hserver, rfl⟩ := h
    obtain ⟨_, rfl⟩ := Server.step_stray hserver
    rfl
  | _ => simp [NetAction.isStray] at hstray

/-- The network can make a step other than a new request. -/
def CanDrain (identity : Fin k → Bytes) (host : Host) (json : Json.Codec) (s : Network k n) :
    Prop :=
  ∃ a t, a.isStray = false ∧ Draining s a ∧ Network.Steps identity host json s a t

/-- A worker that does not wait can go on with the request that its socket holds. -/
theorem canDrain_worker {s : Network k n} (hs : Live identity host json s) {i : Fin n}
    (hwait : (s.server.workers i).phase ≠ .waiting) : CanDrain identity host json s := by
  have hprogress : ∃ (b : Action n) (server : Server n), b.worker = i ∧ b.isCall = true ∧
      Server.Steps host json s.server b server :=
    serving_progress hs.serving i hwait
  obtain ⟨b, server, hworker, hcall, hserver⟩ := hprogress
  subst hworker
  -- the next call of the worker, made as a step of the network
  cases b with
  | receive | stray => simp [Action.isCall] at hcall
  | advance j => exact ⟨.advance j, _, rfl, trivial, server, hserver, rfl⟩
  | reply j sent =>
    obtain ⟨ok, results, hphase⟩ :
        ∃ ok results, (s.server.workers j).phase = .replying ok results := by
      obtain ⟨_, hcases⟩ := Server.step_cases hserver
      cases hcases with
      | answered _ ok results hphase => exact ⟨ok, results, hphase⟩
      | unsent _ ok results hphase => exact ⟨ok, results, hphase⟩
    obtain ⟨held, _, _, hheld, _⟩ :=
      (hs.carried.routed.reps j).attends.busy (Or.inr ⟨ok, results, hphase⟩)
    have hpending := hs.carried.whole j held hheld
    exact ⟨.reply j, _, rfl, trivial, held, ok, results, _, hheld, hpending, hphase,
      Server.step_reply hs.serving.alive hphase, rfl⟩

theorem canDrain_round {s : Network k n} (hs : Live identity host json s)
    (hqueue : s.relay.front.input.queue ≠ [] ∨ s.relay.back.input.queue ≠ []) :
    CanDrain identity host json s := by
  refine ⟨.round, _, rfl, ?_, s.relay.next, hs.serving.alive,
    round_working hs.carried.routed.clean, rfl⟩
  rcases hqueue with hqueue | hqueue
  · left
    simpa [InSock.readable] using Or.inr hqueue
  · right
    simpa [InSock.readable] using Or.inr hqueue

/-- A worker whose socket has a request is at work, or can begin with it. -/
theorem canDrain_inbox (hne : ∀ c, identity c ≠ []) {s : Network k n}
    (hs : Live identity host json s) {i : Fin n} (hinbox : (s.reps i).inbox ≠ []) :
    CanDrain identity host json s := by
  by_cases hwait : (s.server.workers i).phase = .waiting
  · obtain ⟨m, rest, hqueue⟩ := List.exists_cons_of_ne_nil hinbox
    obtain ⟨_, _, held, conf, _, _, hsplit, hparse, _⟩ :=
      live_receive hne hs (by simp [hqueue] : m ∈ (s.reps i).inbox)
    -- any programs will do for the first step
    let tools : Tools :=
      ⟨fun _ work => (0, work), fun _ _ work => ⟨.endless, ⟨[], true, true⟩, work⟩⟩
    exact ⟨.receive i tools, _, rfl, trivial, m, rest, held, _, hqueue, hsplit,
      Server.step_receive hs.serving.alive hwait hparse, rfl⟩
  · exact canDrain_worker hs hwait

theorem exists_ne_nil_of_copies {x : ℕ} {queue : List (Message Frame)} (h : copies x queue ≠ 0) :
    queue ≠ [] := by
  rintro rfl
  exact h rfl

/-- As long as a request is not answered, some step can be made. -/
theorem canDrain (hne : ∀ c, identity c ≠ []) (hn : 0 < n) {s : Network k n}
    (hs : Live identity host json s) {x : ℕ} (hx : s.copies x ≠ 0)
    (hopen : some x ∉ s.delivered.map Delivery.number) : CanDrain identity host json s := by
  have hcount : (s.delivered.map Delivery.number).count (some x) = 0 :=
    List.count_eq_zero_of_not_mem hopen
  -- the request is in one of the other places, and can go on from there
  by_contra hstuck
  have huplinks : ∀ c, copies x (s.uplinks c) = 0 := by
    intro c
    by_contra hcopies
    obtain ⟨m, rest, hqueue⟩ := List.exists_cons_of_ne_nil (exists_ne_nil_of_copies hcopies)
    exact hstuck ⟨.frontArrives c, _, rfl, trivial, m, rest, hs.serving.alive, hqueue, rfl⟩
  have hfrontIn : copies x s.relay.front.input.queue = 0 := by
    by_contra hcopies
    exact hstuck (canDrain_round hs (Or.inl (exists_ne_nil_of_copies hcopies)))
  have hbackIn : copies x s.relay.back.input.queue = 0 := by
    by_contra hcopies
    exact hstuck (canDrain_round hs (Or.inr (exists_ne_nil_of_copies hcopies)))
  have hbackOut : copies x s.relay.back.output.sent = 0 := by
    by_contra hcopies
    obtain ⟨m, rest, hqueue⟩ := List.exists_cons_of_ne_nil (exists_ne_nil_of_copies hcopies)
    exact hstuck ⟨.dispatch ⟨0, hn⟩, _, rfl, trivial, m, rest, hs.serving.alive, hqueue, rfl⟩
  have hfrontOut : copies x s.relay.front.output.sent = 0 := by
    by_contra hcopies
    obtain ⟨m, rest, hqueue⟩ := List.exists_cons_of_ne_nil (exists_ne_nil_of_copies hcopies)
    exact hstuck ⟨.route, _, rfl, trivial, m, rest, hs.serving.alive, hqueue, rfl⟩
  have hreps : ∀ i, (s.reps i).copies x = 0 := by
    intro i
    have hinbox : copies x (s.reps i).inbox = 0 := by
      by_contra hcopies
      exact hstuck (canDrain_inbox hne hs (exists_ne_nil_of_copies hcopies))
    have hheld : (s.reps i).held = none := by
      by_contra hheld
      apply hstuck
      apply canDrain_worker hs (i := i)
      exact fun hwait => hheld (hs.carried.idle hs.serving.alive i hwait)
    have houtbox : copies x (s.reps i).outbox = 0 := by
      by_contra hcopies
      obtain ⟨m, rest, hqueue⟩ := List.exists_cons_of_ne_nil (exists_ne_nil_of_copies hcopies)
      exact hstuck ⟨.backArrives i, _, rfl, trivial, m, rest, hs.serving.alive, hqueue, rfl⟩
    simp [RepSock.copies, hinbox, hheld, houtbox]
  apply hx
  simp [Network.copies, huplinks, hfrontIn, hbackIn, hbackOut, hfrontOut, hreps, hcount]

theorem netServed_run (hid : Function.Injective identity) (hne : ∀ c, identity c ≠ [])
    {s t : Network k n} {acts : List (NetAction k n)} (hs : Live identity host json s)
    (hrun : Run (NetServedSteps identity host json) s acts t) : Live identity host json t :=
  hrun.invariant (Live identity host json) hs (fun _ _ _ hs h => live_step hid hne hs h)

/-- Until clients send again, the requests stay those that were sent. -/
theorem draining_run (hid : Function.Injective identity) (hne : ∀ c, identity c ≠ [])
    {s t : Network k n} {acts : List (NetAction k n)} (hs : Live identity host json s)
    (hrun : Run (DrainingSteps identity host json) s acts t) :
    Live identity host json t ∧ t.requests = s.requests := by
  apply hrun.invariant (fun u => Live identity host json u ∧ u.requests = s.requests) ⟨hs, rfl⟩
  intro u a v hu h
  have hsend : ∀ c m, a ≠ .send c m := by
    rintro c m rfl
    exact h.1
  have hreq := (load_step (fun _ _ => 0) hid hne hu.1.carried h.2.2 hsend).1
  exact ⟨live_step hid hne hu.1 h.2, hreq.trans hu.2⟩

theorem draining_length (hid : Function.Injective identity) (hne : ∀ c, identity c ≠ [])
    {s t u : Network k n} {acts acts' : List (NetAction k n)} (hs : s.Started)
    (hrun : Run (NetServedSteps identity host json) s acts t)
    (hrun' : Run (DrainingSteps identity host json) t acts' u) :
    acts'.countP (fun a => a.isStray = false) ≤ t.workLeft json := by
  have ht := netServed_run hid hne (started_live hs) hrun
  have hle := hrun'.measure_le (Live identity host json) (Network.workLeft json)
    (fun a => a.isStray = false) ht (fun s a t _ hs h => live_step hid hne hs h.2)
    (fun s a t _ hs h ha => work_step hid hne hs h (by simpa using ha))
    (fun s a t _ _ h ha => (work_stray h.2.2 (by simpa using ha)).le)
  omega

/-- Where no step can be made, every request has been answered. -/
theorem drained_answered (hid : Function.Injective identity) (hne : ∀ c, identity c ≠ [])
    (hn : 0 < n) {s t u : Network k n} {acts acts' : List (NetAction k n)} (hs : s.Started)
    (hrun : Run (NetServedSteps identity host json) s acts t)
    (hrun' : Run (DrainingSteps identity host json) t acts' u)
    (hdrain : ¬ CanDrain identity host json u) (x : ℕ) (hx : x < u.requests.length) :
    (u.delivered.map Delivery.number).count (some x) = 1 := by
  have ht := netServed_run hid hne (started_live hs) hrun
  have hu := (draining_run hid hne ht hrun').1
  have hcarried : Run (CarriedSteps identity host json) s (acts ++ acts') u :=
    (hrun.mono_on fun _ _ _ _ h => carriedSteps_of_served h).append
      (hrun'.mono_on fun _ _ _ _ h => carriedSteps_of_served h.2)
  have hone : u.copies x = 1 := by
    rw [(conserved_run hid hne hs hcarried).2 x, if_pos hx]
  have hle : (u.delivered.map Delivery.number).count (some x) ≤ u.copies x :=
    Nat.le_add_left _ _
  -- a copy that has not been delivered is somewhere, and something could still drain
  have hpos : 0 < (u.delivered.map Delivery.number).count (some x) := by
    rw [List.count_pos_iff]
    by_contra hopen
    exact hdrain (canDrain hne hn hu (by omega) hopen)
  omega

/-- While nothing fails, and every request can be served: once the clients send nothing more,
the network makes at most `workLeft` steps of its own, and where it can make no other, every
request has been answered, once. -/
theorem all_answered (hid : Function.Injective identity) (hne : ∀ c, identity c ≠ [])
    (hn : 0 < n) {s t u : Network k n} {acts acts' : List (NetAction k n)}
    (hs : s.Started) (hrun : Run (NetServedSteps identity host json) s acts t)
    (hrun' : Run (DrainingSteps identity host json) t acts' u) :
    acts'.countP (fun a => a.isStray = false) ≤ t.workLeft json ∧
      (CanDrain identity host json u ∨
        ∀ x < t.requests.length, (u.delivered.map Delivery.number).count (some x) = 1) := by
  have hreq := (draining_run hid hne (netServed_run hid hne (started_live hs) hrun) hrun').2
  refine ⟨draining_length hid hne hs hrun hrun', ?_⟩
  by_cases hdrain : CanDrain identity host json u
  · exact Or.inl hdrain
  · right
    intro x hx
    exact drained_answered hid hne hn hs hrun hrun' hdrain x (by rwa [hreq])

/-- Nothing is on its way, and no worker is in a task. -/
structure Drained (s : Network k n) : Prop where
  uplinks : ∀ c, s.uplinks c = []
  relay : s.relay = {}
  reps : ∀ i, s.reps i = {}
  waiting : ∀ i, (s.server.workers i).phase = .waiting

theorem drained_not_canDrain {s : Network k n} (hs : Drained s) :
    ¬ CanDrain identity host json s := by
  rintro ⟨a, t, hstray, hdrain, hstep⟩
  -- every queue is empty, so only a worker in a task could go on
  have hidle : ∀ i, (s.server.workers i).phase.inTask = false := by
    intro i
    rw [hs.waiting i]
    rfl
  cases a with
  | send c m => exact hdrain
  | frontArrives c =>
    obtain ⟨m, rest, _, hqueue, _⟩ := hstep
    simp [hs.uplinks c] at hqueue
  | round => simp [Draining, hs.relay, InSock.readable] at hdrain
  | dispatch i =>
    obtain ⟨m, rest, _, hqueue, _⟩ := hstep
    simp [hs.relay] at hqueue
  | discard i =>
    obtain ⟨m, rest, _, hqueue, _⟩ := hstep
    simp [hs.reps i] at hqueue
  | receive i tools =>
    obtain ⟨m, rest, held, server, hqueue, _⟩ := hstep
    simp [hs.reps i] at hqueue
  | advance i =>
    obtain ⟨server, hserver, _⟩ := hstep
    obtain ⟨_, hcases⟩ := Server.step_cases hserver
    cases hcases with
    | advanced _ _ _ hphase _ => simp [hidle i] at hphase
    | failed _ _ hphase _ => simp [hidle i] at hphase
  | reply i =>
    obtain ⟨held, ok, results, server, hheld, _⟩ := hstep
    simp [hs.reps i] at hheld
  | backArrives i =>
    obtain ⟨m, rest, _, hqueue, _⟩ := hstep
    simp [hs.reps i] at hqueue
  | route =>
    obtain ⟨m, rest, _, hqueue, _⟩ := hstep
    simp [hs.relay] at hqueue
  | stray i fs => simp [NetAction.isStray] at hstray

/-- The calls of one worker, as steps of the network. -/
theorem network_advances {s : Network k n} {u v : Server n} {acts : List (Action n)} {i : Fin n}
    (hrun : Run (When (NothingFails host) (Server.Steps host json)) u acts v)
    (hacts : ∀ a ∈ acts, a = .advance i) :
    Run (DrainingSteps identity host json) { s with server := u }
      (acts.map fun _ => .advance i) { s with server := v } := by
  induction hrun with
  | nil u => exact .nil _
  | @cons u m v a acts hstep _ ih =>
    obtain ⟨hfails, hserver⟩ := hstep
    obtain rfl : a = .advance i := hacts a (by simp)
    exact .cons ⟨trivial, hfails, m, hserver, rfl⟩ (ih fun a ha => hacts a (by simp [ha]))

end Network

section OneClient

def rubyRequest : Message Bytes := ⟨[], [rubyConf.message]⟩

theorem rubyRequest_servable : rubyRequest.Servable rubyCodec :=
  ⟨rfl, _, rubyConf, rfl, parseData_ruby, rfl⟩

/-- The request for Ruby is on its way, and has come to the relay. -/
def rubyAsked : Network 1 1 := freshNetwork.send sole rubyRequest

def rubyArrived : Network 1 1 :=
  rubyAsked.frontArrives oneClient sole (rubyRequest.stamp 0) []

def rubyWire : Message Frame := (SentRequest.wire oneClient ⟨sole, rubyRequest⟩).stamp 0

def rubyHeld : Held where
  envelope := ⟨⟨oneClient sole, 0⟩, [⟨[], 0⟩]⟩
  body := ⟨rubyConf.message, 0⟩
  pending := []

/-- The request has gone through the relay to the worker. -/
def rubyDispatched : Network 1 1 :=
  { rubyArrived with relay := rubyArrived.relay.next }.dispatch sole rubyWire []

def rubyReceived : Network 1 1 := rubyDispatched.receive sole rubyHeld [] rubyDecoded

abbrev RubyRun : Network 1 1 → List (NetAction 1 1) → Network 1 1 → Prop :=
  Run (DrainingSteps oneClient .standard rubyCodec)

theorem ruby_forth : RubyRun rubyAsked
    [.frontArrives sole, .round, .dispatch sole, .receive sole (.ofRuns slowFirst)]
    rubyReceived := by
  have hround : RubyRun rubyArrived [.round] { rubyArrived with relay := rubyArrived.relay.next } :=
    .single ⟨Or.inl rfl, trivial, _, rfl, round_working ⟨rfl, rfl, rfl, rfl⟩, rfl⟩
  have hserver : Server.Steps .standard rubyCodec freshServer
      (.receive sole (some rubyConf.message) (.ofRuns slowFirst)) rubyDecoded :=
    Server.step_receive rfl rfl parseData_ruby
  have hreceive : RubyRun rubyDispatched [.receive sole (.ofRuns slowFirst)] rubyReceived :=
    .single ⟨trivial, trivial, rubyWire, [], rubyHeld, rubyDecoded, rfl, rfl, hserver, rfl⟩
  have harrive : RubyRun rubyAsked [.frontArrives sole] rubyArrived :=
    .single ⟨trivial, trivial, _, _, rfl, rfl, rfl⟩
  have hdispatch : RubyRun { rubyArrived with relay := rubyArrived.relay.next }
      [.dispatch sole] rubyDispatched := .single ⟨trivial, trivial, _, _, rfl, rfl, rfl⟩
  exact harrive.append (hround.append (hdispatch.append hreceive))

/-- The only thing on its way is a reply in the socket of the worker, and it comes home. -/
theorem ruby_home {s : Network 1 1} {m : Message Frame} (huplink : s.uplinks sole = [])
    (hrelay : s.relay = {}) (halive : s.server.exited = false)
    (hrep : s.reps sole = { outbox := [m] }) (hhead : m.head.data = oneClient sole)
    (hwait : (s.server.workers sole).phase = .waiting) :
    ∃ t, RubyRun s [.backArrives sole, .round, .route] t ∧ t.requests = s.requests ∧
      t.delivered = s.delivered ++ [⟨sole, m.tail⟩] ∧ Drained t := by
  -- the reply goes to the `DEALER`, through one round of the loop and back to the client
  let back := s.backArrives sole m []
  let relayed : Network 1 1 := { back with relay := back.relay.next }
  have houtbox : (s.reps sole).outbox = [m] := by rw [hrep]
  have hback : back.relay = { back := ⟨⟨[], [m]⟩, ⟨[], []⟩⟩ } := by
    change { s.relay with back.input.queue := s.relay.back.input.queue ++ [m] } = _
    rw [hrelay]
    rfl
  have hround : JudgeServer.round .working back.relay = .ok back.relay.next := by
    rw [hback]
    exact round_working ⟨rfl, rfl, rfl, rfl⟩
  have hreadable : back.relay.back.input.readable = true := by
    rw [hback]
    rfl
  have hqueue : relayed.relay.front.output.sent = [m] := by
    simp [relayed, hback, Relay.next]
  have hdest : Network.destination oneClient m.head.data = some sole := by
    rw [hhead]
    exact destination_self oneClient_injective sole
  refine ⟨relayed.route oneClient m [], ?_, rfl, ?_, ?_, ?_, ?_, ?_⟩
  · exact .cons ⟨trivial, trivial, m, [], halive, houtbox, rfl⟩
      (.cons ⟨Or.inr hreadable, trivial, _, halive, hround, rfl⟩
        (.single ⟨trivial, trivial, m, [], halive, hqueue, rfl⟩))
  · simp [Network.route, hdest, relayed, back, Network.backArrives, Network.setRep]
  · intro c
    rw [Subsingleton.elim c sole]
    exact huplink
  · simp [Network.route, relayed, hback, Relay.next]
  · intro i
    rw [Subsingleton.elim i sole]
    simp [Network.route, relayed, back, Network.backArrives, Network.setRep, hrep]
  · intro i
    rw [Subsingleton.elim i sole]
    exact hwait

/-- From the request to the reply in the hands of the client. -/
theorem ruby_delivered : ∃ (acts : List (NetAction 1 1)) (t : Network 1 1),
    RubyRun rubyAsked acts t ∧
    (∀ a ∈ acts, a.isStray = false ∧ ∀ i tools, a = .receive i tools → tools = .ofRuns slowFirst) ∧
    t.requests = [⟨sole, rubyRequest⟩] ∧
    t.delivered = [⟨sole, [⟨[], 0⟩, ⟨wrapData rubyCodec rubyResults, 0⟩]⟩] ∧ Drained t := by
  -- the whole task is what is left to do once the request is decoded
  have hrest := (decode_remaining freshServer sole (some rubyConf.message) (.ofRuns slowFirst)
    rubyConf).trans ruby_judged
  obtain ⟨acts, v, hserver, hacts, hlive, hphase, _⟩ :=
    busy_reaches_reply rubyCodec (s := rubyDecoded) (i := sole) rfl
      (Or.inl (by simp [rubyDecoded, Server.decode, Phase.inTask])) hrest
  have hwork : RubyRun rubyReceived (acts.map fun _ => .advance sole)
      { rubyReceived with server := v } :=
    network_advances (hserver.mono_on fun _ _ _ _ h => ⟨h.1 rfl, h.2⟩) hacts
  let m := rubyHeld.reply (wrapData rubyCodec rubyResults)
  let answered : Network 1 1 := { rubyReceived with server := v }.reply sole m
    (v.answer rubyCodec sole true rubyResults)
  have hreply : DrainingSteps oneClient .standard rubyCodec { rubyReceived with server := v }
      (.reply sole) answered :=
    ⟨trivial, trivial, rubyHeld, true, rubyResults, _, rfl, rfl, hphase,
      Server.step_reply hlive hphase, rfl⟩
  have hwait : ((v.answer rubyCodec sole true rubyResults).workers sole).phase = .waiting := by
    simp [Server.answer]
  obtain ⟨t, hhome, hrequests, hdelivered, hdrained⟩ :=
    ruby_home (s := answered) rfl rfl hlive rfl rfl hwait
  refine ⟨_, t, ruby_forth.append (hwork.append (.cons hreply hhome)), ?_, hrequests,
    hdelivered, hdrained⟩
  intro a ha
  simp only [List.mem_append, List.mem_cons, List.mem_map, List.not_mem_nil, or_false] at ha
  rcases ha with (rfl | rfl | rfl | rfl) | ⟨_, _, rfl⟩ | rfl | rfl | rfl | rfl <;>
    simp [NetAction.isStray]

theorem all_answered_ruby : ∃ (acts : List (NetAction 1 1)) (t : Network 1 1),
    RubyRun rubyAsked acts t ∧ ¬ CanDrain oneClient .standard rubyCodec t ∧
    t.delivered = [⟨sole, [⟨[], 0⟩, ⟨wrapData rubyCodec rubyResults, 0⟩]⟩] ∧
    acts.countP (fun a => a.isStray = false) ≤ rubyAsked.workLeft rubyCodec ∧
    (CanDrain oneClient .standard rubyCodec t ∨ ∀ x < rubyAsked.requests.length,
      (t.delivered.map Delivery.number).count (some x) = 1) := by
  obtain ⟨acts, t, hrun, _, _, hdelivered, hdrained⟩ := ruby_delivered
  have hsend : NetServedSteps oneClient .standard rubyCodec freshNetwork
      (.send sole rubyRequest) rubyAsked := ⟨rubyRequest_servable, rfl⟩
  exact ⟨acts, t, hrun, drained_not_canDrain hdrained, hdelivered,
    all_answered oneClient_injective oneClient_ne (by decide) freshNetwork_started
      (Run.single hsend) hrun⟩

end OneClient

end OnlineJudge
