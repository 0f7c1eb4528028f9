import OnlineJudge.Routing

/-! No request is answered twice: what is on its way and what has been delivered carry each
number at most once. -/
namespace OnlineJudge
open Transition

theorem sum_update {n : ℕ} {α : Type} (f : α → ℕ) (g : Fin n → α) (i : Fin n) (v : α) :
    ∑ j, f (Function.update g i v j)+f (g i) = ∑ j, f (g j)+f v := by
  have hnew := Finset.add_sum_erase Finset.univ (fun j => f (Function.update g i v j))
    (Finset.mem_univ i)
  have hold := Finset.add_sum_erase Finset.univ (fun j => f (g j)) (Finset.mem_univ i)
  have hsame : ∑ j ∈ Finset.univ.erase i, f (Function.update g i v j) =
      ∑ j ∈ Finset.univ.erase i, f (g j) := by
    apply Finset.sum_congr rfl
    intro j hj
    rw [Function.update_of_ne (Finset.ne_of_mem_erase hj)]
  simp only [Function.update_self] at hnew
  omega

/-- The messages of a queue that came with request `x`. -/
def copies (x : ℕ) (queue : List (Message Frame)) : ℕ :=
  queue.countP (fun m => m.head.origin = x)

@[simp] theorem copies_nil (x : ℕ) : copies x [] = 0 := rfl

@[simp] theorem copies_append (x : ℕ) (queue queue' : List (Message Frame)) :
    copies x (queue ++ queue') = copies x queue+copies x queue' :=
  List.countP_append

theorem copies_cons (x : ℕ) (m : Message Frame) (queue : List (Message Frame)) :
    copies x (m :: queue) = copies x [m]+copies x queue := by
  rw [← copies_append, List.singleton_append]

theorem copies_singleton (x : ℕ) (m : Message Frame) :
    copies x [m] = if m.head.origin = x then 1 else 0 := by
  simp [copies, List.countP_singleton]

theorem copies_head_tail (x : ℕ) (queue : List (Message Frame)) :
    copies x queue.head?.toList+copies x queue.tail = copies x queue := by
  cases queue with
  | nil => rfl
  | cons m queue => exact (copies_cons x m queue).symm

def Held.copies (x : ℕ) (h : Held) : ℕ := if h.envelope.head.origin = x then 1 else 0

def RepSock.copies (x : ℕ) (rep : RepSock) : ℕ :=
  OnlineJudge.copies x rep.inbox+rep.held.elim 0 (Held.copies x)+
    OnlineJudge.copies x rep.outbox

/-- The request that the reply in a delivery was made for. -/
def Delivery.number {k : ℕ} (d : Delivery k) : Option ℕ := d.frames.getLast?.map Frame.origin

section Once
variable {k n : ℕ} {identity : Fin k → Bytes} {host : Host} {json : Json.Codec}

def Network.copies (s : Network k n) (x : ℕ) : ℕ :=
  ∑ c, OnlineJudge.copies x (s.uplinks c)+OnlineJudge.copies x s.relay.front.input.queue+
    OnlineJudge.copies x s.relay.back.output.sent+∑ i, (s.reps i).copies x+
    OnlineJudge.copies x s.relay.back.input.queue+
    OnlineJudge.copies x s.relay.front.output.sent+
    (s.delivered.map Delivery.number).count (some x)

/-- A request that was sent is in one place at most, and no other number is in use. -/
def Network.Single (s : Network k n) : Prop :=
  ∀ x, s.copies x ≤ if x < s.requests.length then 1 else 0

theorem copies_setRep (s : Network k n) (i : Fin n) (rep : RepSock) (x : ℕ) :
    (s.setRep i rep).copies x+(s.reps i).copies x = s.copies x+rep.copies x := by
  have hsum := sum_update (RepSock.copies x) s.reps i rep
  simp only [Network.copies, Network.setRep]
  omega

theorem copies_setUplink (s : Network k n) (c : Fin k) (queue : List (Message Frame)) (x : ℕ) :
    (s.setUplink c queue).copies x+copies x (s.uplinks c) = s.copies x+copies x queue := by
  have hsum := sum_update (copies x) s.uplinks c queue
  simp only [Network.copies, Network.setUplink]
  omega

theorem copies_next (s : Network k n) (x : ℕ) :
    ({ s with relay := s.relay.next } : Network k n).copies x = s.copies x := by
  have hfront := copies_head_tail x s.relay.front.input.queue
  have hback := copies_head_tail x s.relay.back.input.queue
  simp only [Network.copies, Relay.next, copies_append]
  omega

theorem answers_number {requests : List (SentRequest k)} {workers : Fin n → WorkerState}
    {number : ℕ} {r : SentRequest k} {frames : List Frame}
    (h : Answers host json requests workers number r frames) :
    frames.getLast?.map Frame.origin = some number := by
  obtain ⟨_, envelope, body, reply, i, _, rfl, _⟩ := h
  simp

/-- A message that is sent on turns into one delivery of its request, or into none. -/
theorem count_route {identity : Fin k → Bytes} {requests : List (SentRequest k)}
    {workers : Fin n → WorkerState} {m : Message Frame}
    (hm : IsReply identity host json requests workers m) (x : ℕ) :
    (((Network.destination identity m.head.data).toList.map
      (fun c => (⟨c, m.tail⟩ : Delivery k))).map Delivery.number).count (some x) ≤
      copies x [m] := by
  obtain ⟨number, r, hhead, hanswers⟩ := hm
  cases hdest : Network.destination identity m.head.data with
  | none => simp
  | some c =>
    have hnumber : Delivery.number (⟨c, m.tail⟩ : Delivery k) = some number :=
      answers_number hanswers
    have horigin : m.head.origin = number := by rw [hhead]
    simp [hnumber, copies_singleton, horigin, List.count_singleton]

/-- A step moves what is on its way or drops it; only a request that is sent adds to it. -/
theorem copies_step {s t : Network k n} {a : NetAction k n} (hs : Routed identity host json s)
    (h : Network.Steps identity host json s a t) (x : ℕ) :
    t.requests = s.requests ∧ t.copies x ≤ s.copies x ∨
      t.requests.length = s.requests.length+1 ∧
        t.copies x = s.copies x+if s.requests.length = x then 1 else 0 := by
  cases a with
  | send c m =>
    obtain rfl : t = s.send c m := h
    right
    have hmoved : (s.send c m).copies x+copies x (s.uplinks c) =
        s.copies x+copies x (s.uplinks c ++ [m.stamp s.requests.length]) :=
      copies_setUplink s c _ x
    have hnew : copies x [m.stamp s.requests.length] = if s.requests.length = x then 1 else 0 :=
      copies_singleton x _
    rw [copies_append, hnew] at hmoved
    refine ⟨by simp [Network.send], ?_⟩
    omega
  | frontArrives c =>
    obtain ⟨m, rest, _, hqueue, rfl⟩ := h
    left
    have hsum := sum_update (copies x) s.uplinks c rest
    rw [hqueue, copies_cons, copies_singleton] at hsum
    refine ⟨rfl, ?_⟩
    simp only [Network.copies, Network.frontArrives, Network.setUplink, copies_append,
      copies_singleton]
    omega
  | round =>
    obtain ⟨relay, _, hround, rfl⟩ := h
    left
    rw [round_working hs.clean, Except.ok.injEq] at hround
    rw [← hround]
    exact ⟨rfl, (copies_next s x).le⟩
  | dispatch i =>
    obtain ⟨m, rest, _, hqueue, rfl⟩ := h
    left
    have hsum := sum_update (RepSock.copies x) s.reps i
      { s.reps i with inbox := (s.reps i).inbox ++ [m] }
    refine ⟨rfl, ?_⟩
    simp only [Network.copies, Network.dispatch, Network.setRep, hqueue]
    rw [copies_cons]
    simp only [RepSock.copies, copies_append] at hsum ⊢
    omega
  | discard i =>
    obtain ⟨m, rest, _, hqueue, _, rfl⟩ := h
    left
    have hmoved := copies_setRep s i { s.reps i with inbox := rest } x
    simp only [RepSock.copies, hqueue] at hmoved
    rw [copies_cons] at hmoved
    refine ⟨rfl, ?_⟩
    simp only [Network.discard]
    omega
  | receive i tools =>
    obtain ⟨m, rest, held, server, hqueue, hsplit, hstep, rfl⟩ := h
    left
    -- from the inbox into what the socket holds
    have hmoved : (s.receive i held rest server).copies x+(s.reps i).copies x =
        s.copies x+RepSock.copies x { s.reps i with inbox := rest, held := some held } :=
      copies_setRep s i _ x
    have hheld : held.copies x = copies x [m] := by
      rw [Held.copies, (splitEnvelope_some hsplit).1, copies_singleton]
    simp only [RepSock.copies, hqueue, Option.elim_some, hheld] at hmoved
    rw [copies_cons] at hmoved
    refine ⟨rfl, ?_⟩
    omega
  | advance i =>
    obtain ⟨server, _, rfl⟩ := h
    exact Or.inl ⟨rfl, le_rfl⟩
  | reply i =>
    obtain ⟨held, ok, results, server, hheld, _, _, _, rfl⟩ := h
    left
    -- the reply takes the place of the request that is held
    let m := held.reply (wrapData json (Server.replied ok results))
    have hmoved : (s.reply i m server).copies x+(s.reps i).copies x = s.copies x+RepSock.copies x
        { s.reps i with held := none, outbox := (s.reps i).outbox ++ [m] } :=
      copies_setRep s i _ x
    have hreply : copies x [m] = held.copies x := by
      rw [copies_singleton]
      rfl
    simp only [RepSock.copies, hheld, Option.elim_some, Option.elim_none, copies_append,
      hreply] at hmoved
    refine ⟨rfl, ?_⟩
    change (s.reply i m server).copies x ≤ s.copies x
    omega
  | backArrives i =>
    obtain ⟨m, rest, _, hqueue, rfl⟩ := h
    left
    have hsum := sum_update (RepSock.copies x) s.reps i { s.reps i with outbox := rest }
    simp only [RepSock.copies, hqueue] at hsum
    rw [copies_cons] at hsum
    refine ⟨rfl, ?_⟩
    simp only [Network.copies, Network.backArrives, Network.setRep, copies_append,
      RepSock.copies] at hsum ⊢
    omega
  | route =>
    obtain ⟨m, rest, _, hqueue, rfl⟩ := h
    left
    have hm := hs.frontOut
    rw [hqueue] at hm
    have hcount := count_route (hm m List.mem_cons_self) x
    refine ⟨rfl, ?_⟩
    simp only [Network.copies, Network.route, hqueue, List.map_append, List.count_append]
    rw [copies_cons]
    omega
  | stray i fs =>
    obtain ⟨server, _, rfl⟩ := h
    exact Or.inl ⟨rfl, le_rfl⟩

theorem single_step {s t : Network k n} {a : NetAction k n} (hs : Routed identity host json s)
    (hsingle : s.Single) (h : Network.Steps identity host json s a t) : t.Single := by
  intro x
  have hx := hsingle x
  rcases copies_step hs h x with ⟨hreq, hle⟩ | ⟨hlen, heq⟩
  · rw [hreq]
    exact hle.trans hx
  · rw [heq, hlen]
    split_ifs at hx ⊢ <;> omega

theorem started_single {s : Network k n} (h : s.Started) : s.Single := by
  obtain ⟨_, huplinks, hrelay, hreps, _, hdelivered⟩ := h
  intro x
  have hzero : s.copies x = 0 := by
    simp [Network.copies, huplinks, hrelay, hreps, hdelivered, RepSock.copies]
  omega

/-- Every reply that a client is given is one that some worker made of a request of that same
client, and no request is answered more than once. -/
theorem replies_routed (hid : Function.Injective identity) {s t : Network k n}
    {acts : List (NetAction k n)} (hs : s.Started)
    (hrun : Run (Network.Steps identity host json) s acts t) :
    (∀ d ∈ t.delivered, IsDelivery host json t.requests t.server.workers d) ∧
      (t.delivered.map Delivery.number).Nodup := by
  obtain ⟨hrouted, hsingle⟩ := hrun.invariant
    (fun s => Routed identity host json s ∧ s.Single) ⟨started_routed hs, started_single hs⟩
    (fun s a t h hstep => ⟨routed_step hid h.1 hstep, single_step h.1 h.2 hstep⟩)
  refine ⟨hrouted.delivered, List.nodup_iff_count_le_one.mpr ?_⟩
  intro number
  -- every delivery answers a request, and a request has at most one copy under way
  cases number with
  | none =>
    have hnone : none ∉ t.delivered.map Delivery.number := by
      intro hmem
      obtain ⟨d, hd, hnumber⟩ := List.mem_map.mp hmem
      obtain ⟨number, r, _, hanswers⟩ := hrouted.delivered d hd
      have hsome : d.number = some number := answers_number hanswers
      simp [hnumber] at hsome
    rw [List.count_eq_zero_of_not_mem hnone]
    exact Nat.zero_le 1
  | some x =>
    have hx := hsingle x
    have hpart : (t.delivered.map Delivery.number).count (some x) ≤ t.copies x :=
      Nat.le_add_left _ _
    split_ifs at hx <;> omega

end Once

section OneClient

/-- The request for Pascal, as a `REQ` socket sends it. -/
def pascalRequest : Message Bytes := ⟨[], [pascalConf.message]⟩

def oneClient : Fin 1 → Bytes := fun _ => [0, 107, 139, 69, 103]

def freshNetwork : Network 1 1 where
  uplinks _ := []
  reps _ := {}
  server := freshServer

/-- The request of the only client as the relay carries it, and the reply to it. -/
def pascalWire : Message Frame := (SentRequest.wire oneClient ⟨sole, pascalRequest⟩).stamp 0

def pascalHeld : Held where
  envelope := ⟨⟨oneClient sole, 0⟩, [⟨[], 0⟩]⟩
  body := ⟨pascalConf.message, 0⟩
  pending := []

def systemError : Bytes := wrapData pascalCodec (Server.replied false {})

abbrev OneClientRun : Network 1 1 → List (NetAction 1 1) → Network 1 1 → Prop :=
  Run (Network.Steps oneClient .standard pascalCodec)

/-- The request has gone through the relay to the worker. -/
def pascalDispatched : Network 1 1 :=
  let asked := (freshNetwork.send sole pascalRequest).frontArrives oneClient sole
    (pascalRequest.stamp 0) []
  { asked with relay := asked.relay.next }.dispatch sole pascalWire []

def pascalAnswered : Network 1 1 :=
  let received := pascalDispatched.receive sole pascalHeld [] pascalDecoded
  { received with server := pascalRefused }.reply sole (pascalHeld.reply systemError)
    (pascalRefused.answer pascalCodec sole false {})

/-- The reply has gone through the relay to the client. -/
def pascalDelivered : Network 1 1 :=
  let back := pascalAnswered.backArrives sole (pascalHeld.reply systemError) []
  { back with relay := back.relay.next }.route oneClient (pascalHeld.reply systemError) []

theorem pascal_forth : OneClientRun freshNetwork
    [.send 0 pascalRequest, .frontArrives 0, .round, .dispatch 0] pascalDispatched := by
  refine .cons rfl (.cons ⟨_, _, rfl, rfl, rfl⟩ (.cons ?_ (.single ⟨_, _, rfl, rfl, rfl⟩)))
  exact ⟨_, rfl, round_working ⟨rfl, rfl, rfl, rfl⟩, rfl⟩

theorem pascal_work : OneClientRun pascalDispatched
    [.receive 0 (.ofRuns slowFirst), .advance 0, .reply 0] pascalAnswered := by
  have hreceive : Network.Steps oneClient .standard pascalCodec pascalDispatched
      (.receive 0 (.ofRuns slowFirst)) (pascalDispatched.receive 0 pascalHeld [] pascalDecoded) :=
    ⟨pascalWire, [], pascalHeld, pascalDecoded, rfl, rfl, pascal_receive, rfl⟩
  refine .cons hreceive (.cons ⟨_, pascal_advance, rfl⟩ (.single ?_))
  exact ⟨pascalHeld, false, {}, _, rfl, rfl, pascalRefused_phase, pascal_reply, rfl⟩

theorem pascal_home :
    OneClientRun pascalAnswered [.backArrives 0, .round, .route] pascalDelivered := by
  refine .cons ⟨_, _, rfl, rfl, rfl⟩ (.cons ?_ (.single ⟨_, _, rfl, rfl, rfl⟩))
  exact ⟨_, rfl, round_working ⟨rfl, rfl, rfl, rfl⟩, rfl⟩

theorem replies_routed_oneClient :
    pascalDelivered.delivered = [⟨0, [⟨[], 0⟩, ⟨systemError, 0⟩]⟩] ∧
    (∀ d ∈ pascalDelivered.delivered, IsDelivery .standard pascalCodec pascalDelivered.requests
      pascalDelivered.server.workers d) ∧
    (pascalDelivered.delivered.map Delivery.number).Nodup := by
  have hidentity : Function.Injective oneClient := Function.injective_of_subsingleton _
  have hstart : freshNetwork.Started :=
    ⟨rfl, rfl, rfl, rfl, freshServer_started, rfl⟩
  have hrun := pascal_forth.append (pascal_work.append pascal_home)
  exact ⟨rfl, replies_routed hidentity hstart hrun⟩

end OneClient

end OnlineJudge
