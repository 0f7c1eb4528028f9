import OnlineJudge.Relay
import OnlineJudge.Survival

/-! The clients, the relay and the workers joined by the sockets of ZeroMQ: a `ROUTER` in front,
a `DEALER` in the back, and a `REP` socket for each worker. -/
namespace OnlineJudge
open Transition

/-- A frame, with the number of the request that it came with. The number is for the proofs: no
step reads it, and by `round_map` the relay could not. -/
structure Frame where
  data : Bytes
  origin : ℕ
  deriving DecidableEq

def Message.stamp (m : Message Bytes) (number : ℕ) : Message Frame := m.map (⟨·, number⟩)

structure SentRequest (k : ℕ) where
  client : Fin k
  message : Message Bytes

/-- What a `REP` socket does with a message: it keeps the frames up to the first empty one, and
gives the frames behind them to `recvMsg` one by one. -/
structure Held where
  envelope : Message Frame
  body : Frame
  pending : List Frame

/-- A message without an empty frame, or with nothing behind it, is not held. -/
def splitEnvelope : Frame → List Frame → Option Held
  | _, [] => none
  | frame, next :: rest =>
    if frame.data = [] then some ⟨⟨frame, []⟩, next, rest⟩
    else (splitEnvelope next rest).map
      fun h => { h with envelope := ⟨frame, h.envelope.frames⟩ }

/-- The envelope is put back in front of the data that the worker sends. -/
def Held.reply (h : Held) (data : Bytes) : Message Frame :=
  ⟨h.envelope.head, h.envelope.tail ++ [⟨data, h.body.origin⟩]⟩

structure RepSock where
  inbox : List (Message Frame) := []
  held : Option Held := none
  outbox : List (Message Frame) := []

/-- A reply as a client receives it. -/
structure Delivery (k : ℕ) where
  client : Fin k
  frames : List Frame

/-- The requests in the order in which they were sent, and everything on its way. -/
structure Network (k n : ℕ) where
  requests : List (SentRequest k) := []
  uplinks : Fin k → List (Message Frame)
  relay : Relay Frame := {}
  reps : Fin n → RepSock
  server : Server n
  delivered : List (Delivery k) := []

inductive NetAction (k n : ℕ)
  /-- A client sends a message. -/
  | send (c : Fin k) (m : Message Bytes)
  /-- The `ROUTER` takes the next message of a client. -/
  | frontArrives (c : Fin k)
  /-- One round of the loop of `JudgeServer::run`. -/
  | round
  /-- The `DEALER` hands its next message to a worker. -/
  | dispatch (i : Fin n)
  /-- The `REP` socket of a worker drops a message that has no envelope. -/
  | discard (i : Fin n)
  /-- `recvMsg` of a worker. -/
  | receive (i : Fin n) (tools : Tools)
  | advance (i : Fin n)
  /-- `sendMsg` of a worker. -/
  | reply (i : Fin n)
  /-- The `DEALER` takes the next message of a worker. -/
  | backArrives (i : Fin n)
  /-- The `ROUTER` sends its next message on. -/
  | route
  /-- A program started for a worker writes where or when it should not. -/
  | stray (i : Fin n) (fs : FileSystem)

def NetAction.isStray {k n : ℕ} : NetAction k n → Bool
  | stray _ _ => true
  | _ => false

/-- The outcomes of a round in which every operation works. -/
def Outcomes.working : Outcomes where
  frontRecv _ := false
  backSend _ := false
  backRecv _ := false
  frontSend _ := false

variable {k n : ℕ}

namespace Network

def Started (s : Network k n) : Prop :=
  s.requests = [] ∧ s.uplinks = (fun _ => []) ∧ s.relay = {} ∧ s.reps = (fun _ => {}) ∧
    s.server.Started ∧ s.delivered = []

def setUplink (s : Network k n) (c : Fin k) (queue : List (Message Frame)) : Network k n :=
  { s with uplinks := Function.update s.uplinks c queue }

def setRep (s : Network k n) (i : Fin n) (rep : RepSock) : Network k n :=
  { s with reps := Function.update s.reps i rep }

def send (s : Network k n) (c : Fin k) (m : Message Bytes) : Network k n :=
  { s.setUplink c (s.uplinks c ++ [m.stamp s.requests.length]) with
    requests := s.requests ++ [⟨c, m⟩] }

/-- The identity of the sender comes in front of its message. -/
def frontArrives (identity : Fin k → Bytes) (s : Network k n) (c : Fin k) (m : Message Frame)
    (rest : List (Message Frame)) : Network k n :=
  { s.setUplink c rest with
    relay.front.input.queue :=
      s.relay.front.input.queue ++ [⟨⟨identity c, m.head.origin⟩, m.frames⟩] }

def dispatch (s : Network k n) (i : Fin n) (m : Message Frame) (rest : List (Message Frame)) :
    Network k n :=
  { s.setRep i { s.reps i with inbox := (s.reps i).inbox ++ [m] } with
    relay.back.output.sent := rest }

def discard (s : Network k n) (i : Fin n) (rest : List (Message Frame)) : Network k n :=
  s.setRep i { s.reps i with inbox := rest }

def receive (s : Network k n) (i : Fin n) (held : Held) (rest : List (Message Frame))
    (server : Server n) : Network k n :=
  { s.setRep i { s.reps i with inbox := rest, held := some held } with server }

def reply (s : Network k n) (i : Fin n) (m : Message Frame) (server : Server n) :
    Network k n :=
  { s.setRep i { s.reps i with held := none, outbox := (s.reps i).outbox ++ [m] } with server }

def backArrives (s : Network k n) (i : Fin n) (m : Message Frame) (rest : List (Message Frame)) :
    Network k n :=
  { s.setRep i { s.reps i with outbox := rest } with
    relay.back.input.queue := s.relay.back.input.queue ++ [m] }

def destination (identity : Fin k → Bytes) (data : Bytes) : Option (Fin k) :=
  (List.finRange k).find? (fun c => identity c = data)

/-- The identity comes off, and a message for nobody is dropped. -/
def route (identity : Fin k → Bytes) (s : Network k n) (m : Message Frame)
    (rest : List (Message Frame)) : Network k n :=
  { s with
    relay.front.output.sent := rest
    delivered := s.delivered ++
      (destination identity m.head.data).toList.map (⟨·, m.tail⟩) }

/-- One step of any party, with every operation on a socket working. A worker cannot send while
frames of its request are left, and with the process its sockets are gone: from then on only the
clients make steps. -/
def Steps (identity : Fin k → Bytes) (host : Host) (json : Json.Codec) (s : Network k n)
    (a : NetAction k n) (t : Network k n) : Prop :=
  match a with
  | .send c m => t = s.send c m
  | .frontArrives c =>
    ∃ m rest, s.server.exited = false ∧ s.uplinks c = m :: rest ∧
      t = s.frontArrives identity c m rest
  | .round =>
    ∃ relay, s.server.exited = false ∧ JudgeServer.round .working s.relay = .ok relay ∧
      t = { s with relay }
  | .dispatch i =>
    ∃ m rest, s.server.exited = false ∧ s.relay.back.output.sent = m :: rest ∧
      t = s.dispatch i m rest
  | .discard i =>
    ∃ m rest, s.server.exited = false ∧ (s.reps i).inbox = m :: rest ∧
      splitEnvelope m.head m.tail = none ∧ t = s.discard i rest
  | .receive i tools =>
    ∃ m rest held server, (s.reps i).inbox = m :: rest ∧
      splitEnvelope m.head m.tail = some held ∧
      Server.Steps host json s.server (.receive i (some held.body.data) tools) server ∧
      t = s.receive i held rest server
  | .advance i =>
    ∃ server, Server.Steps host json s.server (.advance i) server ∧ t = { s with server }
  | .reply i =>
    ∃ held ok results server, (s.reps i).held = some held ∧ held.pending = [] ∧
      (s.server.workers i).phase = .replying ok results ∧
      Server.Steps host json s.server (.reply i true) server ∧
      t = s.reply i (held.reply (wrapData json (Server.replied ok results))) server
  | .backArrives i =>
    ∃ m rest, s.server.exited = false ∧ (s.reps i).outbox = m :: rest ∧
      t = s.backArrives i m rest
  | .route =>
    ∃ m rest, s.server.exited = false ∧ s.relay.front.output.sent = m :: rest ∧
      t = s.route identity m rest
  | .stray i fs =>
    ∃ server, Server.Steps host json s.server (.stray i fs) server ∧ t = { s with server }

/-- The step of the pool that a step of the network contains. -/
def poolAction (s : Network k n) : NetAction k n → Option (Action n)
  | .receive i tools =>
    match (s.reps i).inbox with
    | [] => none
    | m :: _ =>
      (splitEnvelope m.head m.tail).map fun held => .receive i (some held.body.data) tools
  | .advance i => some (.advance i)
  | .reply i => some (.reply i true)
  | .stray i fs => some (.stray i fs)
  | _ => none

/-- A step of the network leaves the server as it is, or is a step of the pool. -/
theorem step_pool {identity : Fin k → Bytes} {host : Host} {json : Json.Codec}
    {s t : Network k n} {a : NetAction k n} (h : Steps identity host json s a t) :
    t.server = s.server ∨ ∃ b, s.poolAction a = some b ∧
      Server.Steps host json s.server b t.server := by
  cases a with
  | receive i tools =>
    obtain ⟨m, rest, held, server, hqueue, hsplit, hserver, rfl⟩ := h
    right
    exact ⟨.receive i (some held.body.data) tools, by simp [poolAction, hqueue, hsplit],
      hserver⟩
  | advance i =>
    obtain ⟨server, hserver, rfl⟩ := h
    exact Or.inr ⟨.advance i, rfl, hserver⟩
  | reply i =>
    obtain ⟨held, ok, results, server, _, _, _, hserver, rfl⟩ := h
    exact Or.inr ⟨.reply i true, rfl, hserver⟩
  | send c m =>
    obtain rfl : t = s.send c m := h
    exact Or.inl rfl
  | frontArrives c =>
    obtain ⟨m, rest, _, _, rfl⟩ := h
    exact Or.inl rfl
  | round =>
    obtain ⟨relay, _, _, rfl⟩ := h
    exact Or.inl rfl
  | dispatch i =>
    obtain ⟨m, rest, _, _, rfl⟩ := h
    exact Or.inl rfl
  | discard i =>
    obtain ⟨m, rest, _, _, _, rfl⟩ := h
    exact Or.inl rfl
  | backArrives i =>
    obtain ⟨m, rest, _, _, rfl⟩ := h
    exact Or.inl rfl
  | route =>
    obtain ⟨m, rest, _, _, rfl⟩ := h
    exact Or.inl rfl
  | stray i fs =>
    obtain ⟨server, hserver, rfl⟩ := h
    exact Or.inr ⟨.stray i fs, rfl, hserver⟩

/-- Apart from `send` and `route`, nothing passes between the clients and the program. -/
theorem step_quiet {identity : Fin k → Bytes} {host : Host} {json : Json.Codec}
    {s t : Network k n} {a : NetAction k n} (h : Steps identity host json s a t)
    (hsend : ∀ c m, a ≠ .send c m) (hroute : a ≠ .route) :
    t.requests = s.requests ∧ t.delivered = s.delivered := by
  cases a with
  | send c m => exact absurd rfl (hsend c m)
  | route => exact absurd rfl hroute
  | frontArrives c =>
    obtain ⟨m, rest, _, _, rfl⟩ := h
    exact ⟨rfl, rfl⟩
  | round =>
    obtain ⟨relay, _, _, rfl⟩ := h
    exact ⟨rfl, rfl⟩
  | dispatch i =>
    obtain ⟨m, rest, _, _, rfl⟩ := h
    exact ⟨rfl, rfl⟩
  | discard i =>
    obtain ⟨m, rest, _, _, _, rfl⟩ := h
    exact ⟨rfl, rfl⟩
  | receive i tools =>
    obtain ⟨m, rest, held, server, _, _, _, rfl⟩ := h
    exact ⟨rfl, rfl⟩
  | advance i =>
    obtain ⟨server, _, rfl⟩ := h
    exact ⟨rfl, rfl⟩
  | reply i =>
    obtain ⟨held, ok, results, server, _, _, _, _, rfl⟩ := h
    exact ⟨rfl, rfl⟩
  | backArrives i =>
    obtain ⟨m, rest, _, _, rfl⟩ := h
    exact ⟨rfl, rfl⟩
  | stray i fs =>
    obtain ⟨server, _, rfl⟩ := h
    exact ⟨rfl, rfl⟩

/-- Only the clients make requests. -/
theorem step_requests {identity : Fin k → Bytes} {host : Host} {json : Json.Codec}
    {s t : Network k n} {a : NetAction k n} (h : Steps identity host json s a t)
    (hsend : ∀ c m, a ≠ .send c m) : t.requests = s.requests := by
  by_cases hroute : a = .route
  · subst hroute
    obtain ⟨m, rest, _, _, rfl⟩ := h
    rfl
  · exact (step_quiet h hsend hroute).1

end Network

theorem splitEnvelope_some {frame : Frame} {rest : List Frame} {held : Held}
    (h : splitEnvelope frame rest = some held) :
    held.envelope.head = frame ∧ held.envelope.tail ++ held.body :: held.pending = rest := by
  induction rest generalizing frame held with
  | nil => simp [splitEnvelope] at h
  | cons next rest ih =>
    unfold splitEnvelope at h
    split_ifs at h
    · obtain rfl := Option.some.inj h
      exact ⟨rfl, rfl⟩
    · obtain ⟨inner, hinner, rfl⟩ := Option.map_eq_some_iff.mp h
      obtain ⟨hhead, htail⟩ := ih hinner
      refine ⟨rfl, ?_⟩
      rw [← hhead, ← htail]
      rfl

theorem destination_some {identity : Fin k → Bytes} {data : Bytes} {c : Fin k}
    (h : Network.destination identity data = some c) : identity c = data := by
  simpa using List.find?_some h

/-- A direction in which every operation works moves the message at the head of the queue. -/
theorem relayReadable_working {F : Type} {input : InSock F} {output : OutSock F}
    (hpending : input.pending = []) (hclean : output.unfinished = []) :
    relayReadable (fun _ => false) (fun _ => false) input output =
      .ok (⟨[], input.queue.tail⟩, ⟨[], output.sent ++ input.queue.head?.toList⟩) := by
  cases hqueue : input.queue with
  | nil =>
    rw [relayReadable_empty hpending hqueue]
    cases input
    cases output
    simp_all
  | cons m queue =>
    rw [relayReadable_cons hpending hqueue (fun _ _ => rfl),
      sendMutiMsg_all _ m output hclean (fun _ _ => rfl)]
    rfl

/-- The relay after a round in which every operation works. -/
def Relay.next {F : Type} (s : Relay F) : Relay F :=
  { front := ⟨⟨[], s.front.input.queue.tail⟩,
      ⟨[], s.front.output.sent ++ s.back.input.queue.head?.toList⟩⟩
    back := ⟨⟨[], s.back.input.queue.tail⟩,
      ⟨[], s.back.output.sent ++ s.front.input.queue.head?.toList⟩⟩ }

theorem round_working {F : Type} {s : Relay F} (hs : s.Clean) :
    JudgeServer.round .working s = .ok s.next := by
  have hfront := relayReadable_working hs.frontIn hs.backOut
  have hback := relayReadable_working hs.backIn hs.frontOut
  simp only [JudgeServer.round, Outcomes.working, hfront, hback, call_ok_bind, call_pure,
    Relay.next]

section Logs
variable {host : Host} {json : Json.Codec}

theorem step_logs {s t : Server n} {a : Action n} (h : Server.Steps host json s a t)
    (i : Fin n) : (s.workers i).received <+: (t.workers i).received ∧
      (s.workers i).replies <+: (t.workers i).replies := by
  by_cases hi : i = a.worker
  · subst hi
    obtain ⟨_, hcases⟩ := Server.step_cases h
    cases hcases with
    | decoded i msg tools conf => simp [Action.worker, Server.decode]
    | undecoded i msg tools e =>
      unfold Server.abort
      split_ifs <;> simp [Action.worker]
    | advanced i p w => simp [Action.worker]
    | failed i e =>
      unfold Server.abort
      split_ifs <;> simp [Action.worker]
    | answered i ok results => simp [Action.worker, Server.answer]
    | unsent i ok results => simp [Action.worker]
    | strayed i fs => exact ⟨List.prefix_rfl, List.prefix_rfl⟩
  · rw [Server.step_other h hi]
    exact ⟨List.prefix_rfl, List.prefix_rfl⟩

end Logs

end OnlineJudge
