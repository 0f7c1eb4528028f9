import OnlineJudge.Network

/-! Where replies go: the relay has no table of requests, and still every reply reaches the
client that asked, once. -/
namespace OnlineJudge
open Transition

/-- The calls of `processTask` that lead from one phase to the other. Between two of them the
other workers can change the files. -/
def Calls (host : Host) : Phase → Phase → Prop :=
  Relation.ReflTransGen (fun p p' => ∃ w w', advance host p w = .ok (p', w'))

/-- `reply` is what `processTask` and `wrapData`, or `sendError`, make of this request. -/
def Produces (host : Host) (json : Json.Codec) (body reply : Bytes) : Prop :=
  ∃ conf tools ok results, parseData json body = .ok conf ∧
    Calls host (.decoded conf tools) (.replying ok results) ∧
    reply = wrapData json (Server.replied ok results)

theorem calls_of_rest {host : Host} {p : Phase} {w w' : World} {ok : Bool} {results : Results}
    (hbusy : p.Busy) (h : rest host p w = .ok (ok, results, w')) :
    Calls host p (.replying ok results) := by
  induction hsteps : p.stepsLeft using Nat.strong_induction_on generalizing p w with
  | _ k ih =>
    rcases hbusy with htask | ⟨ok', results', rfl⟩
    · cases hadvance : advance host p w with
      | error e =>
        rw [rest_eq_advance host htask, hadvance] at h
        simp at h
      | ok out =>
        rw [rest_eq_advance host htask, hadvance] at h
        have hadv := advances_of_advance htask hadvance
        have hlt := advance_stepsLeft hadv
        have hnext := ih _ (by rw [← hsteps]; exact hlt) (advances_busy hadv) h rfl
        exact .head ⟨w, out.2, hadvance⟩ hnext
    · simp only [rest, Except.ok.injEq, Prod.mk.injEq] at h
      obtain ⟨rfl, rfl, _⟩ := h
      exact .refl

/-- The reply of a worker that nobody disturbs is one that `processTask` produces. -/
theorem produces_of_processTask {host : Host} {json : Json.Codec} {tools : Tools}
    {body : Bytes} {w w' : World} {ok : Bool} {results : Results}
    (h : processTask host json tools body w = .ok (ok, results, w')) :
    Produces host json body (wrapData json (Server.replied ok results)) := by
  cases hparse : parseData json body with
  | error e => simp [processTask, hparse] at h
  | ok conf =>
    have htask : rest host (.decoded conf tools) w = .ok (ok, results, w') := by
      simpa [rest, processTask, hparse] using h
    exact ⟨conf, tools, ok, results, hparse, calls_of_rest (Or.inl rfl) htask, rfl⟩

/-- Of the messages that a worker has received, `body` is the one that it answered with
`reply`. -/
structure Serves (host : Host) (json : Json.Codec) (x : WorkerState) (body reply : Bytes) :
    Prop where
  turn : ∃ j : ℕ, x.received[j]? = some body ∧ x.replies[j]? = some reply
  produced : Produces host json body reply

/-- What the logs of a worker and its socket have to do with its phase. -/
structure Attends (host : Host) (json : Json.Codec) (x : WorkerState) (held : Option Held) :
    Prop where
  idle : x.phase = .waiting → x.received.length = x.replies.length
  busy : x.phase.Busy → ∃ h conf tools, held = some h ∧
    x.received.length = x.replies.length+1 ∧
    x.received[x.replies.length]? = some h.body.data ∧
    parseData json h.body.data = .ok conf ∧ Calls host (.decoded conf tools) x.phase

theorem not_busy_waiting : ¬ Phase.waiting.Busy := by
  simp [Phase.Busy, Phase.inTask]

theorem prefix_getElem? {α : Type} {xs ys : List α} (h : xs <+: ys) {j : ℕ} {x : α}
    (hx : xs[j]? = some x) : ys[j]? = some x := by
  obtain ⟨more, rfl⟩ := h
  have hj : j < xs.length := (List.getElem?_eq_some_iff.mp hx).1
  rwa [List.getElem?_append_left hj]

section Worker
variable {n : ℕ} {host : Host} {json : Json.Codec} {s t : Server n} {i : Fin n}

theorem attends_abort {held held' : Option Held} (e : Abort)
    (h : Attends host json (s.workers i) held)
    (hheld : held' = held ∨ (s.workers i).phase = .waiting) :
    Attends host json ((s.abort i e).workers i) held' := by
  unfold Server.abort
  split_ifs
  · refine ⟨h.idle, ?_⟩
    intro hbusy
    rcases hheld with rfl | hwait
    · exact h.busy hbusy
    · exact absurd (hwait ▸ hbusy) not_busy_waiting
  · exact ⟨by simp, by simp [Phase.Busy, Phase.inTask]⟩

theorem attends_receive {tools : Tools} {held : Held} {old : Option Held}
    (hstep : Server.Steps host json s (.receive i (some held.body.data) tools) t)
    (h : Attends host json (s.workers i) old) :
    Attends host json (t.workers i) (some held) := by
  obtain ⟨_, hcases⟩ := Server.step_cases hstep
  cases hcases with
  | undecoded _ _ _ e hphase _ => exact attends_abort e h (Or.inr hphase)
  | decoded _ _ _ conf hphase hparse =>
    have hlen := h.idle hphase
    refine ⟨by simp [Server.decode], ?_⟩
    intro _
    refine ⟨held, conf, tools, rfl, ?_, ?_, hparse, ?_⟩
    · simp [Server.decode, hlen]
    · simp [Server.decode, ← hlen]
    · simp only [Server.decode, Server.modify_self]
      exact .refl

theorem attends_advance {held : Option Held}
    (hstep : Server.Steps host json s (.advance i) t)
    (h : Attends host json (s.workers i) held) : Attends host json (t.workers i) held := by
  obtain ⟨_, hcases⟩ := Server.step_cases hstep
  cases hcases with
  | failed _ e hphase _ => exact attends_abort e h (Or.inl rfl)
  | advanced _ p w hphase hadvance =>
    have hadv := advances_of_advance hphase hadvance
    obtain ⟨held', conf, tools, hheld, hlen, hlast, hparse, hcalls⟩ := h.busy (Or.inl hphase)
    refine ⟨?_, ?_⟩
    · intro hwait
      have hp : p = .waiting := by simpa using hwait
      exact absurd (hp ▸ advances_busy hadv) not_busy_waiting
    · intro _
      refine ⟨held', conf, tools, hheld, by simpa using hlen, by simpa using hlast, hparse, ?_⟩
      rw [Server.put_self]
      exact hcalls.tail ⟨_, _, hadvance⟩

theorem attends_reply {held : Held} {ok : Bool} {results : Results}
    (hphase : (s.workers i).phase = .replying ok results)
    (hstep : Server.Steps host json s (.reply i true) t)
    (h : Attends host json (s.workers i) (some held)) :
    Attends host json (t.workers i) none ∧
      Serves host json (t.workers i) held.body.data
        (wrapData json (Server.replied ok results)) := by
  -- the message held is the last one received, and the reply is the end of its task
  obtain ⟨held', conf, tools, hheld, hlen, hlast, hparse, hcalls⟩ :=
    h.busy (Or.inr ⟨ok, results, hphase⟩)
  obtain rfl : held = held' := Option.some.inj hheld
  obtain ⟨_, hcases⟩ := Server.step_cases hstep
  cases hcases with
  | answered _ ok' results' hphase' =>
    obtain ⟨rfl, rfl⟩ : ok = ok' ∧ results = results' := by
      rw [hphase] at hphase'
      exact Phase.replying.inj hphase'
    refine ⟨⟨?_, ?_⟩, ⟨⟨(s.workers i).replies.length, ?_, ?_⟩, ?_⟩⟩
    · intro _
      simp [Server.answer, hlen]
    · cases ok <;> simp [Server.answer, Phase.Busy, Phase.inTask]
    · simpa [Server.answer] using hlast
    · simp [Server.answer]
    · exact ⟨conf, tools, ok, results, hparse, hphase ▸ hcalls, rfl⟩

theorem serves_step {a : Action n} {j : Fin n} {body reply : Bytes}
    (hstep : Server.Steps host json s a t) (h : Serves host json (s.workers j) body reply) :
    Serves host json (t.workers j) body reply := by
  obtain ⟨hreceived, hreplies⟩ := step_logs hstep j
  obtain ⟨turn, hbody, hreply⟩ := h.turn
  exact ⟨⟨turn, prefix_getElem? hreceived hbody, prefix_getElem? hreplies hreply⟩, h.produced⟩

theorem attends_step {a : Action n} {j : Fin n} {held : Option Held}
    (hstep : Server.Steps host json s a t) (hj : j ≠ a.worker)
    (h : Attends host json (s.workers j) held) : Attends host json (t.workers j) held := by
  rwa [Server.step_other hstep hj]

end Worker

section Shapes
variable {k n : ℕ} (identity : Fin k → Bytes) (host : Host) (json : Json.Codec)
  (requests : List (SentRequest k)) (workers : Fin n → WorkerState)

/-- A request as the front socket shows it to the relay. -/
def SentRequest.wire (r : SentRequest k) : Message Bytes :=
  ⟨identity r.client, r.message.frames⟩

def OnUplink (c : Fin k) (m : Message Frame) : Prop :=
  ∃ (number : ℕ) (r : SentRequest k), requests[number]? = some r ∧ r.client = c ∧
    m = r.message.stamp number

def IsRequest (m : Message Frame) : Prop :=
  ∃ (number : ℕ) (r : SentRequest k), requests[number]? = some r ∧
    m = (r.wire identity).stamp number

def IsHeld (h : Held) : Prop :=
  ∃ (number : ℕ) (r : SentRequest k), requests[number]? = some r ∧
    h.envelope.head = ⟨identity r.client, number⟩ ∧
    h.envelope.tail ++ h.body :: h.pending = (r.message.stamp number).frames

/-- These frames are those of request `number`, but for the last one, in whose place there is
what a worker replied to it. -/
structure Answers (number : ℕ) (r : SentRequest k) (frames : List Frame) : Prop where
  asked : requests[number]? = some r
  served : ∃ envelope body reply i, r.message.frames = envelope ++ [body] ∧
    frames = (envelope ++ [reply]).map (⟨·, number⟩) ∧ Serves host json (workers i) body reply

def IsReply (m : Message Frame) : Prop :=
  ∃ number r, m.head = ⟨identity r.client, number⟩ ∧
    Answers host json requests workers number r m.tail

def IsDelivery (d : Delivery k) : Prop :=
  ∃ number r, r.client = d.client ∧ Answers host json requests workers number r d.frames

end Shapes

section Grow
variable {k n : ℕ} {identity : Fin k → Bytes} {host : Host} {json : Json.Codec}
  {requests requests' : List (SentRequest k)} {workers workers' : Fin n → WorkerState}

theorem OnUplink.mono (hreq : requests <+: requests') {c : Fin k} {m : Message Frame}
    (h : OnUplink requests c m) : OnUplink requests' c m := by
  obtain ⟨number, r, hr, hc, hm⟩ := h
  exact ⟨number, r, prefix_getElem? hreq hr, hc, hm⟩

theorem IsRequest.mono (hreq : requests <+: requests') {m : Message Frame}
    (h : IsRequest identity requests m) : IsRequest identity requests' m := by
  obtain ⟨number, r, hr, hm⟩ := h
  exact ⟨number, r, prefix_getElem? hreq hr, hm⟩

theorem IsHeld.mono (hreq : requests <+: requests') {h : Held}
    (hheld : IsHeld identity requests h) : IsHeld identity requests' h := by
  obtain ⟨number, r, hr, hm⟩ := hheld
  exact ⟨number, r, prefix_getElem? hreq hr, hm⟩

variable (hreq : requests <+: requests')
  (hserves : ∀ i body reply, Serves host json (workers i) body reply →
    Serves host json (workers' i) body reply)
include hreq hserves

theorem Answers.mono {number : ℕ} {r : SentRequest k} {frames : List Frame}
    (h : Answers host json requests workers number r frames) :
    Answers host json requests' workers' number r frames := by
  obtain ⟨hasked, envelope, body, reply, i, hbody, hframes, hserved⟩ := h
  exact ⟨prefix_getElem? hreq hasked, envelope, body, reply, i, hbody, hframes,
    hserves i body reply hserved⟩

theorem IsReply.mono {m : Message Frame} (h : IsReply identity host json requests workers m) :
    IsReply identity host json requests' workers' m := by
  obtain ⟨number, r, hhead, hans⟩ := h
  exact ⟨number, r, hhead, hans.mono hreq hserves⟩

theorem IsDelivery.mono {d : Delivery k} (h : IsDelivery host json requests workers d) :
    IsDelivery host json requests' workers' d := by
  obtain ⟨number, r, hclient, hans⟩ := h
  exact ⟨number, r, hclient, hans.mono hreq hserves⟩

end Grow

section Network
variable {k n : ℕ} (identity : Fin k → Bytes) (host : Host) (json : Json.Codec)

/-- A worker with its socket: requests come in, and the replies that go out are its own. -/
structure RepRouted (requests : List (SentRequest k)) (workers : Fin n → WorkerState)
    (x : WorkerState) (rep : RepSock) : Prop where
  inbox : ∀ m ∈ rep.inbox, IsRequest identity requests m
  held : ∀ h ∈ rep.held, IsHeld identity requests h
  attends : Attends host json x rep.held
  outbox : ∀ m ∈ rep.outbox, IsReply identity host json requests workers m

/-- Every message is where it can be: requests on the way to the workers, replies on the way
back, and each under the identity of its client. -/
structure Routed (s : Network k n) : Prop where
  clean : s.relay.Clean
  uplinks : ∀ c, ∀ m ∈ s.uplinks c, OnUplink s.requests c m
  frontIn : ∀ m ∈ s.relay.front.input.queue, IsRequest identity s.requests m
  backOut : ∀ m ∈ s.relay.back.output.sent, IsRequest identity s.requests m
  reps : ∀ i, RepRouted identity host json s.requests s.server.workers (s.server.workers i)
    (s.reps i)
  backIn : ∀ m ∈ s.relay.back.input.queue,
    IsReply identity host json s.requests s.server.workers m
  frontOut : ∀ m ∈ s.relay.front.output.sent,
    IsReply identity host json s.requests s.server.workers m
  delivered : ∀ d ∈ s.delivered, IsDelivery host json s.requests s.server.workers d

variable {identity host json}

theorem RepRouted.mono {requests requests' : List (SentRequest k)}
    {workers workers' : Fin n → WorkerState} {x x' : WorkerState} {rep : RepSock}
    (hreq : requests <+: requests')
    (hserves : ∀ i body reply, Serves host json (workers i) body reply →
      Serves host json (workers' i) body reply)
    (h : RepRouted identity host json requests workers x rep)
    (hattends : Attends host json x' rep.held) :
    RepRouted identity host json requests' workers' x' rep :=
  ⟨fun m hm => (h.inbox m hm).mono hreq, fun held hheld => (h.held held hheld).mono hreq,
    hattends, fun m hm => (h.outbox m hm).mono hreq hserves⟩

theorem started_routed {s : Network k n} (h : s.Started) : Routed identity host json s := by
  obtain ⟨_, huplinks, hrelay, hreps, ⟨_, hfresh⟩, hdelivered⟩ := h
  refine ⟨?_, ?_, ?_, ?_, ?_, ?_, ?_, ?_⟩
  · rw [hrelay]
    exact ⟨rfl, rfl, rfl, rfl⟩
  · simp [huplinks]
  · simp [hrelay]
  · simp [hrelay]
  · intro i
    rw [hreps, hfresh i]
    refine ⟨by simp, by simp, ⟨by simp, ?_⟩, by simp⟩
    intro hbusy
    exact absurd hbusy not_busy_waiting
  · simp [hrelay]
  · simp [hrelay]
  · simp [hdelivered]

theorem Routed.reps_update {s : Network k n} (hs : Routed identity host json s) {i : Fin n}
    {rep : RepSock} (hrep : RepRouted identity host json s.requests s.server.workers
      (s.server.workers i) rep) (j : Fin n) :
    RepRouted identity host json s.requests s.server.workers (s.server.workers j)
      ((s.setRep i rep).reps j) := by
  by_cases hj : j = i
  · subst hj
    simpa [Network.setRep] using hrep
  · have hsame : (s.setRep i rep).reps j = s.reps j := by simp [Network.setRep, hj]
    rw [hsame]
    exact hs.reps j

/-- A step of the server leaves everything in its place, if the worker that makes it and its
socket still fit. -/
theorem routed_server {s : Network k n} {server : Server n} {a : Action n} {rep : RepSock}
    (hs : Routed identity host json s) (hstep : Server.Steps host json s.server a server)
    (hrep : RepRouted identity host json s.requests server.workers (server.workers a.worker)
      rep) :
    Routed identity host json { s.setRep a.worker rep with server } := by
  have hserves : ∀ i body reply, Serves host json (s.server.workers i) body reply →
      Serves host json (server.workers i) body reply :=
    fun i body reply h => serves_step hstep h
  refine ⟨hs.clean, hs.uplinks, hs.frontIn, hs.backOut, ?_,
    fun m hm => (hs.backIn m hm).mono List.prefix_rfl hserves,
    fun m hm => (hs.frontOut m hm).mono List.prefix_rfl hserves,
    fun d hd => (hs.delivered d hd).mono List.prefix_rfl hserves⟩
  intro i
  -- the socket of the worker that made the step, and those that stay as they are
  by_cases hi : i = a.worker
  · subst hi
    simpa [Network.setRep] using hrep
  · have hold := hs.reps i
    have hsame : ({ s.setRep a.worker rep with server } : Network k n).reps i = s.reps i := by
      simp [Network.setRep, hi]
    rw [hsame]
    exact hold.mono List.prefix_rfl hserves (attends_step hstep hi hold.attends)

theorem routed_send {s : Network k n} (hs : Routed identity host json s) (c : Fin k)
    (m : Message Bytes) : Routed identity host json (s.send c m) := by
  have hreq : s.requests <+: (s.send c m).requests := List.prefix_append _ _
  have hserves : ∀ i body reply, Serves host json (s.server.workers i) body reply →
      Serves host json (s.server.workers i) body reply := fun _ _ _ h => h
  refine ⟨hs.clean, ?_, fun m hm => (hs.frontIn m hm).mono hreq,
    fun m hm => (hs.backOut m hm).mono hreq,
    fun i => (hs.reps i).mono hreq hserves (hs.reps i).attends,
    fun m hm => (hs.backIn m hm).mono hreq hserves,
    fun m hm => (hs.frontOut m hm).mono hreq hserves,
    fun d hd => (hs.delivered d hd).mono hreq hserves⟩
  have hnew : (s.send c m).requests[s.requests.length]? = some ⟨c, m⟩ := by
    simp [Network.send]
  refine (Function.forall_update_iff s.uplinks
    (fun c' queue => ∀ m' ∈ queue, OnUplink (s.requests ++ [⟨c, m⟩]) c' m')).mpr ⟨?_, ?_⟩
  · intro m' hm'
    rcases List.mem_append.mp hm' with hm' | hm'
    · exact (hs.uplinks c m' hm').mono hreq
    · exact ⟨s.requests.length, ⟨c, m⟩, hnew, rfl, List.mem_singleton.mp hm'⟩
  · intro c' _ m' hm'
    exact (hs.uplinks c' m' hm').mono hreq

theorem routed_next {s : Network k n} (hs : Routed identity host json s) :
    Routed identity host json { s with relay := s.relay.next } := by
  refine ⟨⟨rfl, rfl, rfl, rfl⟩, hs.uplinks, fun m hm => hs.frontIn m (List.mem_of_mem_tail hm),
    ?_, hs.reps, fun m hm => hs.backIn m (List.mem_of_mem_tail hm), ?_, hs.delivered⟩
  · intro m hm
    rcases List.mem_append.mp hm with hm | hm
    · exact hs.backOut m hm
    · exact hs.frontIn m (List.mem_of_mem_head? (by simpa using hm))
  · intro m hm
    rcases List.mem_append.mp hm with hm | hm
    · exact hs.frontOut m hm
    · exact hs.backIn m (List.mem_of_mem_head? (by simpa using hm))

/-- The body of a request is its last frame, when nothing of it is left. -/
theorem isReply_of_held {requests : List (SentRequest k)} {workers : Fin n → WorkerState}
    {held : Held} {i : Fin n} {data : Bytes} (hheld : IsHeld identity requests held)
    (hpending : held.pending = []) (hserves : Serves host json (workers i) held.body.data data) :
    IsReply identity host json requests workers (held.reply data) := by
  obtain ⟨number, r, hr, hhead, htail⟩ := hheld
  rw [hpending] at htail
  have hsplit : (r.message.frames.map (⟨·, number⟩) : List Frame) =
      held.envelope.tail ++ [held.body] := htail.symm
  obtain ⟨envelope, last, hframes, henvelope, hlast⟩ := List.map_eq_append_iff.mp hsplit
  obtain ⟨body, rfl, hbody⟩ := List.map_eq_singleton_iff.mp hlast
  refine ⟨number, r, hhead, hr, envelope, body, data, i, hframes, ?_, ?_⟩
  · simp [Held.reply, henvelope, ← hbody]
  · rwa [← hbody] at hserves

theorem routed_step (hid : Function.Injective identity) {s t : Network k n}
    {a : NetAction k n} (hs : Routed identity host json s)
    (h : Network.Steps identity host json s a t) : Routed identity host json t := by
  cases a with
  | send c m =>
    obtain rfl : t = s.send c m := h
    exact routed_send hs c m
  | frontArrives c =>
    obtain ⟨m, rest, _, hqueue, rfl⟩ := h
    have hm := hs.uplinks c
    rw [hqueue] at hm
    obtain ⟨hfirst, hrest⟩ := List.forall_mem_cons.mp hm
    refine ⟨⟨hs.clean.frontIn, hs.clean.frontOut, hs.clean.backIn, hs.clean.backOut⟩, ?_, ?_,
      hs.backOut, hs.reps, hs.backIn, hs.frontOut, hs.delivered⟩
    · refine (Function.forall_update_iff s.uplinks
        (fun c queue => ∀ m' ∈ queue, OnUplink s.requests c m')).mpr ⟨?_, ?_⟩
      · exact hrest
      · exact fun c' _ => hs.uplinks c'
    -- the socket of the relay puts the identity of the client in front
    · refine List.forall_mem_append.mpr ⟨hs.frontIn, List.forall_mem_singleton.mpr ?_⟩
      obtain ⟨number, r, hr, rfl, rfl⟩ := hfirst
      exact ⟨number, r, hr, rfl⟩
  | round =>
    obtain ⟨relay, _, hround, rfl⟩ := h
    rw [round_working hs.clean, Except.ok.injEq] at hround
    rw [← hround]
    exact routed_next hs
  | dispatch i =>
    obtain ⟨m, rest, _, hqueue, rfl⟩ := h
    have hm := hs.backOut
    rw [hqueue] at hm
    obtain ⟨hfirst, hrest⟩ := List.forall_mem_cons.mp hm
    refine ⟨⟨hs.clean.frontIn, hs.clean.frontOut, hs.clean.backIn, hs.clean.backOut⟩, hs.uplinks,
      hs.frontIn, hrest, hs.reps_update ?_, hs.backIn, hs.frontOut, hs.delivered⟩
    refine ⟨?_, (hs.reps i).held, (hs.reps i).attends, (hs.reps i).outbox⟩
    exact List.forall_mem_append.mpr
      ⟨(hs.reps i).inbox, List.forall_mem_singleton.mpr hfirst⟩
  | discard i =>
    obtain ⟨m, rest, _, hqueue, _, rfl⟩ := h
    have hm := (hs.reps i).inbox
    rw [hqueue] at hm
    obtain ⟨_, hrest⟩ := List.forall_mem_cons.mp hm
    refine ⟨hs.clean, hs.uplinks, hs.frontIn, hs.backOut, hs.reps_update ?_, hs.backIn,
      hs.frontOut, hs.delivered⟩
    exact ⟨hrest, (hs.reps i).held, (hs.reps i).attends, (hs.reps i).outbox⟩
  | receive i tools =>
    obtain ⟨m, rest, held, server, hqueue, hsplit, hstep, rfl⟩ := h
    have hm := (hs.reps i).inbox
    rw [hqueue] at hm
    obtain ⟨hfirst, hrest⟩ := List.forall_mem_cons.mp hm
    refine routed_server hs hstep ⟨hrest, ?_, attends_receive hstep (hs.reps i).attends, ?_⟩
    · intro held' hheld'
      obtain rfl : held = held' := Option.some.inj hheld'
      obtain ⟨number, r, hr, rfl⟩ := hfirst
      obtain ⟨hhead, htail⟩ := splitEnvelope_some hsplit
      exact ⟨number, r, hr, hhead, htail⟩
    · exact ((hs.reps i).mono List.prefix_rfl (fun _ _ _ h => serves_step hstep h)
        (hs.reps i).attends).outbox
  | advance i =>
    obtain ⟨server, hstep, rfl⟩ := h
    have hrep := (hs.reps i).mono List.prefix_rfl (fun _ _ _ h => serves_step hstep h)
      (attends_advance hstep (hs.reps i).attends)
    have hsame : s.setRep i (s.reps i) = s := by simp [Network.setRep]
    have hrouted := routed_server hs hstep hrep
    rwa [Action.worker, hsame] at hrouted
  | reply i =>
    obtain ⟨held, ok, results, server, hheld, hpending, hphase, hstep, rfl⟩ := h
    have hattends := (hs.reps i).attends
    rw [hheld] at hattends
    obtain ⟨hidle, hserves⟩ := attends_reply hphase hstep hattends
    have hold := (hs.reps i).mono List.prefix_rfl (fun _ _ _ h => serves_step hstep h)
      (hs.reps i).attends
    have hanswer := isReply_of_held ((hs.reps i).held held hheld) hpending hserves
    refine routed_server hs hstep ⟨hold.inbox, by simp, hidle, ?_⟩
    exact List.forall_mem_append.mpr ⟨hold.outbox, List.forall_mem_singleton.mpr hanswer⟩
  | backArrives i =>
    obtain ⟨m, rest, _, hqueue, rfl⟩ := h
    have hm := (hs.reps i).outbox
    rw [hqueue] at hm
    obtain ⟨hfirst, hrest⟩ := List.forall_mem_cons.mp hm
    refine ⟨⟨hs.clean.frontIn, hs.clean.frontOut, hs.clean.backIn, hs.clean.backOut⟩, hs.uplinks,
      hs.frontIn, hs.backOut, hs.reps_update ?_, ?_, hs.frontOut, hs.delivered⟩
    · exact ⟨(hs.reps i).inbox, (hs.reps i).held, (hs.reps i).attends, hrest⟩
    · exact List.forall_mem_append.mpr ⟨hs.backIn, List.forall_mem_singleton.mpr hfirst⟩
  | route =>
    obtain ⟨m, rest, _, hqueue, rfl⟩ := h
    have hm := hs.frontOut
    rw [hqueue] at hm
    obtain ⟨hfirst, hrest⟩ := List.forall_mem_cons.mp hm
    refine ⟨⟨hs.clean.frontIn, hs.clean.frontOut, hs.clean.backIn, hs.clean.backOut⟩, hs.uplinks,
      hs.frontIn, hs.backOut, hs.reps, hs.backIn, hrest, ?_⟩
    refine List.forall_mem_append.mpr ⟨hs.delivered, ?_⟩
    intro d hd
    obtain ⟨c, hc, rfl⟩ := List.mem_map.mp hd
    obtain ⟨number, r, hhead, hanswers⟩ := hfirst
    -- no other client has the identity that the reply starts with
    have hidentity := destination_some (Option.mem_toList.mp hc)
    rw [hhead] at hidentity
    exact ⟨number, r, (hid hidentity).symm, hanswers⟩
  | stray i fs =>
    obtain ⟨server, hstep, rfl⟩ := h
    obtain ⟨_, rfl⟩ := Server.step_stray hstep
    exact ⟨hs.clean, hs.uplinks, hs.frontIn, hs.backOut, hs.reps, hs.backIn, hs.frontOut,
      hs.delivered⟩

end Network

end OnlineJudge
