import OnlineJudge.Replies

/-! Requests on their way: the places through which a request and its reply go, and that a
request of a `REQ` client is in one of them at all times. -/
namespace OnlineJudge
open Transition

/-- What a `REQ` socket sends: an empty frame, and the data behind it. -/
def Message.FromReq (m : Message Bytes) : Prop := m.head = [] ∧ ∃ body, m.tail = [body]

/-- Where a request, or the reply to it, can be. -/
inductive Place
  | uplink | frontIn | backOut | inbox | held | outbox | backIn | frontOut | delivered
  deriving DecidableEq

/-- Request `number` goes from one place to the next, as itself or as its reply. -/
structure Hop where
  src : Place
  dst : Place
  number : ℕ
  deriving DecidableEq

def firstHop (src dst : Place) (queue : List (Message Frame)) : List Hop :=
  queue.head?.toList.map (fun m => ⟨src, dst, m.head.origin⟩)

/-- What the messages of a queue weigh, each by the number of its request. -/
def queueLoad (f : ℕ → ℕ) (queue : List (Message Frame)) : ℕ :=
  (queue.map (fun m => f m.head.origin)).sum

def RepSock.load (f : Place → ℕ → ℕ) (rep : RepSock) : ℕ :=
  queueLoad (f .inbox) rep.inbox+rep.held.elim 0 (fun h => f .held h.envelope.head.origin)+
    queueLoad (f .outbox) rep.outbox

def deliveredLoad {k : ℕ} (f : ℕ → ℕ) (ds : List (Delivery k)) : ℕ :=
  (ds.map (fun d => d.number.elim 0 f)).sum

section Load
variable (f : ℕ → ℕ)

@[simp] theorem queueLoad_nil : queueLoad f [] = 0 := rfl

@[simp] theorem queueLoad_cons (m : Message Frame) (queue : List (Message Frame)) :
    queueLoad f (m :: queue) = f m.head.origin+queueLoad f queue := by
  simp [queueLoad]

@[simp] theorem queueLoad_append (queue queue' : List (Message Frame)) :
    queueLoad f (queue ++ queue') = queueLoad f queue+queueLoad f queue' := by
  simp [queueLoad]

theorem queueLoad_copies (x : ℕ) (queue : List (Message Frame)) :
    queueLoad (fun y => if y = x then 1 else 0) queue = copies x queue := by
  induction queue with
  | nil => rfl
  | cons m queue ih => rw [queueLoad_cons, copies_cons, copies_singleton, ih]

@[simp] theorem deliveredLoad_append {k : ℕ} (ds ds' : List (Delivery k)) :
    deliveredLoad f (ds ++ ds') = deliveredLoad f ds+deliveredLoad f ds' := by
  simp [deliveredLoad]

theorem deliveredLoad_count {k : ℕ} (x : ℕ) (ds : List (Delivery k)) :
    deliveredLoad (fun y => if y = x then 1 else 0) ds =
      (ds.map Delivery.number).count (some x) := by
  induction ds with
  | nil => rfl
  | cons d ds ih =>
    have hcons : deliveredLoad (fun y => if y = x then 1 else 0) (d :: ds) =
        (d.number.elim 0 fun y => if y = x then 1 else 0)+
          deliveredLoad (fun y => if y = x then 1 else 0) ds := by
      simp [deliveredLoad]
    rw [hcons, ih, List.map_cons, List.count_cons]
    cases hnumber : d.number with
    | none => simp
    | some y =>
      simp only [Option.elim_some, beq_iff_eq, Option.some.injEq]
      exact Nat.add_comm _ _

end Load

section Network
variable {k n : ℕ}

/-- What is in the network weighs, by its place and by the number of its request. -/
def Network.load (f : Place → ℕ → ℕ) (s : Network k n) : ℕ :=
  ∑ c, queueLoad (f .uplink) (s.uplinks c)+queueLoad (f .frontIn) s.relay.front.input.queue+
    queueLoad (f .backOut) s.relay.back.output.sent+∑ i, (s.reps i).load f+
    queueLoad (f .backIn) s.relay.back.input.queue+
    queueLoad (f .frontOut) s.relay.front.output.sent+deliveredLoad (f .delivered) s.delivered

/-- Being there, wherever that is. -/
theorem copies_eq_load (s : Network k n) (x : ℕ) :
    s.copies x = s.load (fun _ y => if y = x then 1 else 0) := by
  have hrep : ∀ i, (s.reps i).copies x =
      (s.reps i).load (fun _ y => if y = x then 1 else 0) := by
    intro i
    simp only [RepSock.copies, RepSock.load, queueLoad_copies]
    rfl
  simp only [Network.copies, Network.load, queueLoad_copies, deliveredLoad_count, hrep]

/-- The hops that a step makes: a round of the relay up to two, and the other steps at most
one. -/
def Network.hops (s : Network k n) : NetAction k n → List Hop
  | .send _ _ => []
  | .frontArrives c => firstHop .uplink .frontIn (s.uplinks c)
  | .round => firstHop .frontIn .backOut s.relay.front.input.queue ++
      firstHop .backIn .frontOut s.relay.back.input.queue
  | .dispatch _ => firstHop .backOut .inbox s.relay.back.output.sent
  | .discard _ => []
  | .receive i _ => firstHop .inbox .held (s.reps i).inbox
  | .advance _ => []
  | .reply i => (s.reps i).held.toList.map (fun h => ⟨.held, .outbox, h.envelope.head.origin⟩)
  | .backArrives i => firstHop .outbox .backIn (s.reps i).outbox
  | .route => firstHop .frontOut .delivered s.relay.front.output.sent
  | .stray _ _ => []

end Network

section Carried
variable {k n : ℕ} (identity : Fin k → Bytes) (host : Host) (json : Json.Codec)

/-- The clients send from `REQ` sockets. -/
def SendsFromReq (_ : Network k n) : NetAction k n → Prop
  | .send _ m => m.FromReq
  | _ => True

def CarriedSteps (s : Network k n) (a : NetAction k n) (t : Network k n) : Prop :=
  When SendsFromReq (Network.Steps identity host json) s a t

/-- What keeps requests from being lost: they have the shape that every socket on their way
expects, and a socket that gives a worker the next one holds no other. -/
structure Carried (s : Network k n) : Prop where
  routed : Routed identity host json s
  fromReq : ∀ r ∈ s.requests, r.message.FromReq
  whole : ∀ i, ∀ h ∈ (s.reps i).held, h.pending = []
  idle : s.server.exited = false → ∀ i, (s.server.workers i).phase = .waiting →
    (s.reps i).held = none

variable {identity host json}

theorem started_carried {s : Network k n} (h : s.Started) : Carried identity host json s := by
  have hrouted : Routed identity host json s := started_routed h
  obtain ⟨hreq, _, _, hreps, _, _⟩ := h
  exact ⟨hrouted, by simp [hreq], by simp [hreps], by simp [hreps]⟩

/-- A request is split behind the empty frame of its client, and nothing of it is left over. -/
theorem splitEnvelope_request {requests : List (SentRequest k)} {m : Message Frame}
    (hne : ∀ c, identity c ≠ []) (hreq : ∀ r ∈ requests, r.message.FromReq)
    (h : IsRequest identity requests m) :
    ∃ number r body, requests[number]? = some r ∧ r.message.tail = [body] ∧
      splitEnvelope m.head m.tail = some
        ⟨⟨⟨identity r.client, number⟩, [⟨[], number⟩]⟩, ⟨body, number⟩, []⟩ := by
  obtain ⟨number, r, hr, rfl⟩ := h
  obtain ⟨hhead, body, htail⟩ := hreq r (List.mem_of_getElem? hr)
  refine ⟨number, r, body, hr, htail, ?_⟩
  -- the identity is not empty, so the envelope goes on to the next frame
  simp [SentRequest.wire, Message.stamp, Message.map, Message.frames, hhead, htail,
    splitEnvelope, hne r.client]

/-- The socket of a worker splits every request that it gets, and drops none. -/
theorem not_discards (hne : ∀ c, identity c ≠ []) {s t : Network k n} {i : Fin n}
    (hs : Carried identity host json s) : ¬ Network.Steps identity host json s (.discard i) t := by
  rintro ⟨m, rest, _, hqueue, hsplit, _⟩
  have hm := (hs.routed.reps i).inbox m (by simp [hqueue])
  obtain ⟨_, _, _, _, _, hsplit'⟩ := splitEnvelope_request hne hs.fromReq hm
  rw [hsplit] at hsplit'
  simp at hsplit'

/-- A worker that waits has either waited before, or has just replied. -/
theorem waiting_step {s t : Server n} {a : Action n} {i : Fin n}
    (h : Server.Steps host json s a t) (hstray : a.isStray = false) (halive : t.exited = false)
    (hwait : (t.workers i).phase = .waiting) :
    (i ≠ a.worker ∧ (s.workers i).phase = .waiting) ∨ ∃ sent, a = .reply i sent := by
  by_cases hi : i = a.worker
  · right
    subst hi
    obtain ⟨_, hcases⟩ := Server.step_cases h
    cases hcases with
    | answered i ok results hphase => exact ⟨true, rfl⟩
    | unsent i ok results hphase => exact ⟨false, rfl⟩
    | strayed i fs => simp [Action.isStray] at hstray
    | decoded i msg tools conf hphase hparse => simp [Action.worker, Server.decode] at hwait
    | advanced i p w hphase hadv =>
      have hp : p = .waiting := by simpa [Action.worker] using hwait
      exact absurd (hp ▸ advances_busy (advances_of_advance hphase hadv)) not_busy_waiting
    -- a call that does not return ends the process or keeps the worker
    | undecoded i msg tools e | failed i e =>
      unfold Server.abort at halive hwait
      split_ifs at halive hwait
      simp [Action.worker] at hwait
  · left
    rw [Server.step_other h hi] at hwait
    exact ⟨hi, hwait⟩

/-- The step of one worker with its socket, if it leaves nothing in a socket whose worker
waits. -/
theorem carried_server {s : Network k n} {server : Server n} {a : Action n} {rep : RepSock}
    (hs : Carried identity host json s) (hstep : Server.Steps host json s.server a server)
    (hstray : a.isStray = false)
    (hrouted : Routed identity host json { s.setRep a.worker rep with server })
    (hwhole : ∀ h ∈ rep.held, h.pending = [])
    (hidle : (∃ sent, a = .reply a.worker sent) → rep.held = none) :
    Carried identity host json { s.setRep a.worker rep with server } := by
  have hself : (s.setRep a.worker rep).reps a.worker = rep := by simp [Network.setRep]
  have hother : ∀ j, j ≠ a.worker → (s.setRep a.worker rep).reps j = s.reps j := by
    intro j hj
    simp [Network.setRep, hj]
  refine ⟨hrouted, hs.fromReq, ?_, ?_⟩
  · intro j
    exact forall_member (I := fun x : RepSock => ∀ h ∈ x.held, h.pending = [])
      (fun (u : Network k n) j => u.reps j) (s := s) (t := s.setRep a.worker rep) hs.whole hother
      (by rwa [hself]) j
  · intro halive j hwait
    have hbefore : s.server.exited = false := (Server.step_cases hstep).1
    -- a worker comes to wait by its reply only, and then its socket holds nothing
    rcases waiting_step hstep hstray halive hwait with ⟨hj, hold⟩ | ⟨sent, ha⟩
    · exact (congrArg RepSock.held (hother j hj)).trans (hs.idle hbefore j hold)
    · have hj : j = a.worker := by simp [ha, Action.worker]
      subst hj
      exact (congrArg RepSock.held hself).trans (hidle ⟨sent, ha⟩)

/-- A step beside the workers and what their sockets hold. -/
theorem carried_beside {s t : Network k n} (hs : Carried identity host json s)
    (hrouted : Routed identity host json t) (hreq : t.requests = s.requests)
    (hexited : t.server.exited = s.server.exited)
    (hworkers : t.server.workers = s.server.workers)
    (hheld : ∀ i, (t.reps i).held = (s.reps i).held) :
    Carried identity host json t := by
  refine ⟨hrouted, ?_, ?_, ?_⟩
  · rw [hreq]
    exact hs.fromReq
  · intro i
    rw [hheld i]
    exact hs.whole i
  · intro halive i hwait
    rw [hexited] at halive
    rw [hworkers] at hwait
    rw [hheld i]
    exact hs.idle halive i hwait

theorem setRep_held (s : Network k n) {i : Fin n} {rep : RepSock}
    (h : rep.held = (s.reps i).held) (j : Fin n) :
    ((s.setRep i rep).reps j).held = (s.reps j).held := by
  by_cases hj : j = i
  · subst hj
    simpa [Network.setRep] using h
  · simp [Network.setRep, hj]

theorem carried_step (hid : Function.Injective identity) (hne : ∀ c, identity c ≠ [])
    {s t : Network k n} {a : NetAction k n} (hs : Carried identity host json s)
    (h : CarriedSteps identity host json s a t) : Carried identity host json t := by
  obtain ⟨hsends, hstep⟩ := h
  have hrouted := routed_step hid hs.routed hstep
  cases a with
  | send c m =>
    obtain rfl : t = s.send c m := hstep
    refine ⟨hrouted, ?_, hs.whole, hs.idle⟩
    intro r hr
    rcases List.mem_append.mp hr with hr | hr
    · exact hs.fromReq r hr
    · rw [List.mem_singleton.mp hr]
      exact hsends
  -- the hops between the sockets leave the workers and the requests as they are
  | frontArrives c =>
    obtain ⟨m, rest, _, _, rfl⟩ := hstep
    exact carried_beside hs hrouted rfl rfl rfl (fun _ => rfl)
  | round =>
    obtain ⟨relay, _, _, rfl⟩ := hstep
    exact carried_beside hs hrouted rfl rfl rfl (fun _ => rfl)
  | dispatch i =>
    obtain ⟨m, rest, _, _, rfl⟩ := hstep
    exact carried_beside hs hrouted rfl rfl rfl (setRep_held s rfl)
  | discard i =>
    obtain ⟨m, rest, _, _, _, rfl⟩ := hstep
    exact carried_beside hs hrouted rfl rfl rfl (setRep_held s rfl)
  | receive i tools =>
    obtain ⟨m, rest, held, server, hqueue, hsplit, hserver, rfl⟩ := hstep
    -- the envelope is the one the front socket pushed: an identity and a number
    have hm := (hs.routed.reps i).inbox m (by simp [hqueue])
    obtain ⟨number, r, body, _, _, hsplit'⟩ := splitEnvelope_request hne hs.fromReq hm
    have hheld : held = ⟨⟨⟨identity r.client, number⟩, [⟨[], number⟩]⟩, ⟨body, number⟩, []⟩ :=
      Option.some.inj (hsplit.symm.trans hsplit')
    refine carried_server hs hserver rfl hrouted ?_ (by simp)
    simp [hheld]
  | advance i =>
    obtain ⟨server, hserver, rfl⟩ := hstep
    -- a step of the task touches no socket
    have hsame : s.setRep i (s.reps i) = s := by simp [Network.setRep]
    have hrouted' : Routed identity host json { s.setRep i (s.reps i) with server } := by
      simpa only [hsame] using hrouted
    have hcarried := carried_server hs hserver rfl hrouted' (hs.whole i) (by simp)
    simpa only [Action.worker, hsame] using hcarried
  | reply i =>
    obtain ⟨held, ok, results, server, _, _, _, hserver, rfl⟩ := hstep
    -- the socket is free again with the reply, whatever becomes of it
    exact carried_server hs hserver rfl hrouted (by simp) (fun _ => rfl)
  | backArrives i =>
    obtain ⟨m, rest, _, _, rfl⟩ := hstep
    exact carried_beside hs hrouted rfl rfl rfl (setRep_held s rfl)
  | route =>
    obtain ⟨m, rest, _, _, rfl⟩ := hstep
    exact carried_beside hs hrouted rfl rfl rfl (fun _ => rfl)
  | stray i fs =>
    obtain ⟨server, hserver, rfl⟩ := hstep
    obtain ⟨_, rfl⟩ := Server.step_stray hserver
    exact carried_beside hs hrouted rfl rfl rfl (fun _ => rfl)

theorem destination_self (hid : Function.Injective identity) (c : Fin k) :
    Network.destination identity (identity c) = some c := by
  have hfound : (Network.destination identity (identity c)).isSome = true := by
    rw [Network.destination, List.find?_isSome]
    exact ⟨c, List.mem_finRange c, by simp⟩
  obtain ⟨c', hc'⟩ := Option.isSome_iff_exists.mp hfound
  rw [hc', hid (destination_some hc')]

variable (f : Place → ℕ → ℕ)

/-- The loads of the sources, or of the destinations, of these hops. -/
def hopLoad (place : Hop → Place) (hops : List Hop) : ℕ :=
  (hops.map (fun hop => f (place hop) hop.number)).sum

@[simp] theorem hopLoad_nil (place : Hop → Place) : hopLoad f place [] = 0 := rfl

@[simp] theorem hopLoad_singleton (place : Hop → Place) (hop : Hop) :
    hopLoad f place [hop] = f (place hop) hop.number := by
  simp [hopLoad]

@[simp] theorem hopLoad_append (place : Hop → Place) (hops hops' : List Hop) :
    hopLoad f place (hops ++ hops') = hopLoad f place hops+hopLoad f place hops' := by
  simp [hopLoad]

theorem firstHop_cons (src dst : Place) (m : Message Frame) (queue : List (Message Frame)) :
    firstHop src dst (m :: queue) = [⟨src, dst, m.head.origin⟩] := rfl

/-- The message at the head of a queue is sent on to the end of another. -/
theorem firstHop_load (src dst : Place) (queue out : List (Message Frame)) :
    queueLoad (f src) queue.tail+queueLoad (f dst) (out ++ queue.head?.toList)+
        hopLoad f Hop.src (firstHop src dst queue) =
      queueLoad (f src) queue+queueLoad (f dst) out+hopLoad f Hop.dst (firstHop src dst queue) := by
  cases queue with
  | nil => simp [firstHop]
  | cons m queue =>
    simp only [List.tail_cons, List.head?_cons, Option.toList_some, queueLoad_append,
      queueLoad_cons, queueLoad_nil, firstHop_cons, hopLoad_singleton]
    omega

/-- A step that sends nothing new takes a message from the source of each of its hops to the
destination, and leaves everything else where it is. -/
theorem load_step (hid : Function.Injective identity) (hne : ∀ c, identity c ≠ [])
    {s t : Network k n} {a : NetAction k n} (hs : Carried identity host json s)
    (h : Network.Steps identity host json s a t) (hsend : ∀ c m, a ≠ .send c m) :
    t.requests = s.requests ∧
      t.load f+hopLoad f Hop.src (s.hops a) = s.load f+hopLoad f Hop.dst (s.hops a) := by
  cases a with
  | send c m => exact absurd rfl (hsend c m)
  | frontArrives c =>
    obtain ⟨m, rest, _, hqueue, rfl⟩ := h
    have hsum := sum_update (queueLoad (f .uplink)) s.uplinks c rest
    rw [hqueue, queueLoad_cons] at hsum
    refine ⟨rfl, ?_⟩
    simp only [Network.load, Network.hops, Network.frontArrives, Network.setUplink, hqueue,
      firstHop_cons, hopLoad_singleton, queueLoad_append, queueLoad_cons, queueLoad_nil]
    omega
  | round =>
    obtain ⟨relay, _, hround, rfl⟩ := h
    rw [round_working hs.routed.clean, Except.ok.injEq] at hround
    rw [← hround]
    have hforth := firstHop_load f .frontIn .backOut s.relay.front.input.queue
      s.relay.back.output.sent
    have hback := firstHop_load f .backIn .frontOut s.relay.back.input.queue
      s.relay.front.output.sent
    refine ⟨rfl, ?_⟩
    simp only [Network.load, Network.hops, Relay.next, hopLoad_append]
    omega
  | dispatch i =>
    obtain ⟨m, rest, _, hqueue, rfl⟩ := h
    have hsum := sum_update (RepSock.load f) s.reps i
      { s.reps i with inbox := (s.reps i).inbox ++ [m] }
    refine ⟨rfl, ?_⟩
    simp only [Network.load, Network.hops, Network.dispatch, Network.setRep, hqueue,
      firstHop_cons, hopLoad_singleton, queueLoad_cons]
    simp only [RepSock.load, queueLoad_append, queueLoad_cons, queueLoad_nil] at hsum ⊢
    omega
  | discard i => exact absurd h (not_discards hne hs)
  | receive i tools =>
    obtain ⟨m, rest, held, server, hqueue, hsplit, hserver, rfl⟩ := h
    have hnone : (s.reps i).held = none := by
      obtain ⟨halive, hcases⟩ := Server.step_cases hserver
      cases hcases with
      | decoded _ _ _ _ hphase _ => exact hs.idle halive i hphase
      | undecoded _ _ _ _ hphase _ => exact hs.idle halive i hphase
    have hsum := sum_update (RepSock.load f) s.reps i
      { s.reps i with inbox := rest, held := some held }
    refine ⟨rfl, ?_⟩
    simp only [Network.load, Network.hops, Network.receive, Network.setRep, hqueue,
      firstHop_cons, hopLoad_singleton]
    simp only [RepSock.load, hqueue, hnone, queueLoad_cons, Option.elim_some, Option.elim_none,
      (splitEnvelope_some hsplit).1] at hsum ⊢
    omega
  | advance i =>
    obtain ⟨server, _, rfl⟩ := h
    exact ⟨rfl, rfl⟩
  | reply i =>
    obtain ⟨held, ok, results, server, hheld, _, _, _, rfl⟩ := h
    have hsum := sum_update (RepSock.load f) s.reps i
      { s.reps i with
        held := none
        outbox := (s.reps i).outbox ++ [held.reply (wrapData json (Server.replied ok results))] }
    refine ⟨rfl, ?_⟩
    simp only [Network.load, Network.hops, Network.reply, Network.setRep, hheld,
      Option.toList_some, List.map_cons, List.map_nil, hopLoad_singleton]
    simp only [RepSock.load, hheld, queueLoad_append, queueLoad_cons, queueLoad_nil,
      Option.elim_some, Option.elim_none, Held.reply] at hsum ⊢
    omega
  | backArrives i =>
    obtain ⟨m, rest, _, hqueue, rfl⟩ := h
    have hsum := sum_update (RepSock.load f) s.reps i { s.reps i with outbox := rest }
    refine ⟨rfl, ?_⟩
    simp only [Network.load, Network.hops, Network.backArrives, Network.setRep, hqueue,
      firstHop_cons, hopLoad_singleton, queueLoad_append, queueLoad_cons, queueLoad_nil]
    simp only [RepSock.load, hqueue, queueLoad_cons] at hsum ⊢
    omega
  | route =>
    obtain ⟨m, rest, _, hqueue, rfl⟩ := h
    obtain ⟨number, r, hhead, hanswers⟩ := hs.routed.frontOut m (by simp [hqueue])
    have hdelivered : deliveredLoad (f .delivered)
        ([⟨r.client, m.tail⟩] : List (Delivery k)) = f .delivered number := by
      have hnumber : Delivery.number (⟨r.client, m.tail⟩ : Delivery k) = some number :=
        answers_number hanswers
      simp [deliveredLoad, hnumber]
    have hdest : Network.destination identity m.head.data = some r.client := by
      rw [hhead]
      exact destination_self hid r.client
    refine ⟨rfl, ?_⟩
    simp only [Network.load, Network.hops, Network.route, hqueue, firstHop_cons,
      hopLoad_singleton, queueLoad_cons, deliveredLoad_append, hdest, Option.toList_some,
      List.map_cons, List.map_nil, hdelivered]
    have hnumber : m.head.origin = number := by rw [hhead]
    rw [hnumber]
    omega
  | stray i fs =>
    obtain ⟨server, _, rfl⟩ := h
    exact ⟨rfl, rfl⟩

theorem load_send (s : Network k n) (c : Fin k) (m : Message Bytes) :
    (s.send c m).load f = s.load f+f .uplink s.requests.length := by
  have hsum := sum_update (queueLoad (f .uplink)) s.uplinks c
    (s.uplinks c ++ [m.stamp s.requests.length])
  have hnew : (m.stamp s.requests.length).head.origin = s.requests.length := rfl
  rw [queueLoad_append, queueLoad_cons, queueLoad_nil, hnew] at hsum
  simp only [Network.load, Network.send, Network.setUplink]
  omega

theorem carried_run (hid : Function.Injective identity) (hne : ∀ c, identity c ≠ [])
    {s t : Network k n} {acts : List (NetAction k n)} (hs : Carried identity host json s)
    (hrun : Run (CarriedSteps identity host json) s acts t) : Carried identity host json t :=
  hrun.invariant (Carried identity host json) hs (fun _ _ _ hs h => carried_step hid hne hs h)

theorem conserved_step (hid : Function.Injective identity) (hne : ∀ c, identity c ≠ [])
    {s t : Network k n} {a : NetAction k n} (hs : Carried identity host json s)
    (hcopies : ∀ x, s.copies x = if x < s.requests.length then 1 else 0)
    (h : CarriedSteps identity host json s a t) (x : ℕ) :
    t.copies x = if x < t.requests.length then 1 else 0 := by
  have hx := hcopies x
  by_cases hsend : ∃ c m, a = .send c m
  · obtain ⟨c, m, rfl⟩ := hsend
    obtain rfl : t = s.send c m := h.2
    have hlen : (s.send c m).requests.length = s.requests.length+1 := by simp [Network.send]
    rw [copies_eq_load] at hx ⊢
    rw [load_send, hx, hlen]
    split_ifs <;> omega
  · obtain ⟨hreq, hload⟩ := load_step (fun _ y => if y = x then 1 else 0) hid hne hs h.2
      (fun c m ha => hsend ⟨c, m, ha⟩)
    -- a hop takes as much from its source as it brings to its destination
    have hhops : hopLoad (fun _ y => if y = x then 1 else 0) Hop.src (s.hops a) =
        hopLoad (fun _ y => if y = x then 1 else 0) Hop.dst (s.hops a) := rfl
    rw [copies_eq_load] at hx ⊢
    rw [hreq]
    omega

theorem conserved_run (hid : Function.Injective identity) (hne : ∀ c, identity c ≠ [])
    {s t : Network k n} {acts : List (NetAction k n)} (hs : s.Started)
    (hrun : Run (CarriedSteps identity host json) s acts t) :
    Carried identity host json t ∧
      ∀ x, t.copies x = if x < t.requests.length then 1 else 0 := by
  have hstart : ∀ x, s.copies x = if x < s.requests.length then 1 else 0 := by
    intro x
    have hsingle := started_single hs x
    have hnone : s.requests = [] := hs.1
    simp only [hnone, List.length_nil, Nat.not_lt_zero, if_false] at hsingle ⊢
    omega
  exact hrun.invariant
    (fun s => Carried identity host json s ∧
      ∀ x, s.copies x = if x < s.requests.length then 1 else 0) ⟨started_carried hs, hstart⟩
    (fun s a t h hstep =>
      ⟨carried_step hid hne h.1 hstep, conserved_step hid hne h.1 h.2 hstep⟩)

/-- Whatever the order of the steps, and also when workers leave their loops, every request
that was sent is in one place: on its way, at a worker, or answered. A process that exits takes
along what is in its sockets. -/
theorem requests_conserved (hid : Function.Injective identity) (hne : ∀ c, identity c ≠ [])
    {s t : Network k n} {acts : List (NetAction k n)} (hs : s.Started)
    (hrun : Run (CarriedSteps identity host json) s acts t) (x : ℕ) :
    t.copies x = if x < t.requests.length then 1 else 0 :=
  (conserved_run hid hne hs hrun).2 x

end Carried

section OneClient

theorem oneClient_injective : Function.Injective oneClient :=
  Function.injective_of_subsingleton _

theorem oneClient_ne (c : Fin 1) : oneClient c ≠ [] := by simp [oneClient]

theorem freshNetwork_started : freshNetwork.Started :=
  ⟨rfl, rfl, rfl, rfl, freshServer_started, rfl⟩

theorem pascalRequest_fromReq : pascalRequest.FromReq := ⟨rfl, _, rfl⟩

/-- A run of the only client, in which it sends nothing but the request for Pascal. -/
theorem oneClient_carried {s t : Network 1 1} {acts : List (NetAction 1 1)}
    (hrun : OneClientRun s acts t) (hsends : ∀ c m, .send c m ∈ acts → m = pascalRequest) :
    Run (CarriedSteps oneClient .standard pascalCodec) s acts t := by
  apply hrun.mono_on
  intro s a t ha hstep
  refine ⟨?_, hstep⟩
  cases a with
  | send c m =>
    rw [hsends c m ha]
    exact pascalRequest_fromReq
  | _ => trivial

theorem pascalDelivered_run : Run (CarriedSteps oneClient .standard pascalCodec) freshNetwork
    ([.send 0 pascalRequest, .frontArrives 0, .round, .dispatch 0] ++
      ([.receive 0 (.ofRuns slowFirst), .advance 0, .reply 0] ++
        [.backArrives 0, .round, .route])) pascalDelivered :=
  oneClient_carried (pascal_forth.append (pascal_work.append pascal_home)) (by simp)

theorem requests_conserved_oneClient :
    pascalDelivered.copies 0 = if 0 < pascalDelivered.requests.length then 1 else 0 :=
  requests_conserved oneClient_injective oneClient_ne freshNetwork_started pascalDelivered_run 0

end OneClient

end OnlineJudge
