import OnlineJudge.Transition
import OnlineJudge.ZmqMsg

/-! The relay of `JudgeServer::run` between its two sockets: what it puts on one of them for
every outcome of the frame operations. -/
namespace OnlineJudge
open Transition

structure Sock (F : Type) where
  input : InSock F := {}
  output : OutSock F := {}
  deriving DecidableEq

/-- `sock_front_` and `sock_back_`. -/
structure Relay (F : Type) where
  front : Sock F := {}
  back : Sock F := {}
  deriving DecidableEq

variable {F : Type}

/-- Which frame operations of one round of the loop fail. -/
structure Outcomes where
  frontRecv : ℕ → Bool
  backSend : ℕ → Bool
  backRecv : ℕ → Bool
  frontSend : ℕ → Bool

/-- One branch of the loop. Whether the message was received is only logged. -/
def relayMsg (recvFails sendFails : ℕ → Bool) (input : InSock F) (output : OutSock F) :
    Call (InSock F × OutSock F) := do
  let (_, msgs, input) := ZmqMutiMsg.recvMutiMsg recvFails input
  let (_, output) ← ZmqMutiMsg.sendMutiMsg sendFails msgs output
  return (input, output)

/-- A branch is taken when `zmq_poll` has set `ZMQ_POLLIN`. -/
def relayReadable (recvFails sendFails : ℕ → Bool) (input : InSock F) (output : OutSock F) :
    Call (InSock F × OutSock F) :=
  if input.readable then relayMsg recvFails sendFails input output else .ok (input, output)

/-- One round of the loop of `JudgeServer::run`. -/
def JudgeServer.round (o : Outcomes) (s : Relay F) : Call (Relay F) := do
  let (frontIn, backOut) ←
    relayReadable o.frontRecv o.backSend s.front.input s.back.output
  let (backIn, frontOut) ←
    relayReadable o.backRecv o.frontSend s.back.input s.front.output
  return { front := ⟨frontIn, frontOut⟩, back := ⟨backIn, backOut⟩ }

def Sock.map {G : Type} (f : F → G) (s : Sock F) : Sock G := ⟨s.input.map f, s.output.map f⟩

def Relay.map {G : Type} (f : F → G) (s : Relay F) : Relay G := ⟨s.front.map f, s.back.map f⟩

theorem relayReadable_map {G : Type} (f : F → G) (recvFails sendFails : ℕ → Bool)
    (input : InSock F) (output : OutSock F) :
    relayReadable recvFails sendFails (input.map f) (output.map f) =
      (relayReadable recvFails sendFails input output).map fun out =>
        (out.1.map f, out.2.map f) := by
  have hreadable : (input.map f).readable = input.readable := by
    cases hp : input.pending <;> cases hq : input.queue <;>
      simp [InSock.readable, InSock.map, hp, hq]
  cases hread : input.readable with
  | false => simp [relayReadable, hreadable, hread, Except.map]
  | true =>
    simp only [relayReadable, hreadable, hread, if_true, relayMsg, recvMutiMsg_map,
      sendMutiMsg_map]
    cases ZmqMutiMsg.sendMutiMsg sendFails (ZmqMutiMsg.recvMutiMsg recvFails input).2.1 output <;>
      rfl

/-- The relay looks at no frame: frames that are renamed before a round come out renamed. -/
theorem round_map {G : Type} (f : F → G) (o : Outcomes) (s : Relay F) :
    JudgeServer.round o (s.map f) = (JudgeServer.round o s).map (Relay.map f) := by
  have hfront := relayReadable_map f o.frontRecv o.backSend s.front.input s.back.output
  have hback := relayReadable_map f o.backRecv o.frontSend s.back.input s.front.output
  simp only [JudgeServer.round, Relay.map, Sock.map, hfront, hback]
  cases relayReadable o.frontRecv o.backSend s.front.input s.back.output with
  | error e => rfl
  | ok forward =>
    cases relayReadable o.backRecv o.frontSend s.back.input s.front.output <;> rfl

structure Relay.Clean (s : Relay F) : Prop where
  frontIn : s.front.input.pending = []
  frontOut : s.front.output.unfinished = []
  backIn : s.back.input.pending = []
  backOut : s.back.output.unfinished = []

/-- `sendMutiMsg` is run on the whole message, and puts all of it on the socket or nothing. -/
structure WholeOrNothing (recvFails : ℕ → Bool) (input : InSock F) (m : Message F)
    (output output' : OutSock F) : Prop where
  received : (ZmqMutiMsg.recvMutiMsg recvFails input).2.1 = m.frames
  finished : output'.unfinished = []
  sent : output'.sent = output.sent ∨ output'.sent = output.sent ++ [m]

/-- One direction of a round is all or nothing for the message at its head. -/
def DirectionWhole (recvFails : ℕ → Bool) (input : InSock F) (output output' : OutSock F) :
    Prop :=
  (input.queue = [] → output' = output) ∧
    ∀ m ∈ input.queue.head?, WholeOrNothing recvFails input m output output'

def AllOrNothing (o : Outcomes) (s : Relay F) : Prop :=
  ∃ t, JudgeServer.round o s = .ok t ∧
    DirectionWhole o.frontRecv s.front.input s.back.output t.back.output ∧
    DirectionWhole o.backRecv s.back.input s.front.output t.front.output

/-- All receives of the next message work, and its sends all work or fail from the first. -/
def DirectionFine (recvFails sendFails : ℕ → Bool) (input : InSock F) : Prop :=
  ∀ m ∈ input.queue.head?, ReceivesAll recvFails m ∧ SendsAllOrNone sendFails m

def Outcomes.Fine (o : Outcomes) (s : Relay F) : Prop :=
  DirectionFine o.frontRecv o.backSend s.front.input ∧
    DirectionFine o.backRecv o.frontSend s.back.input

section Direction
variable {recvFails sendFails : ℕ → Bool} {input input' : InSock F} {output output' : OutSock F}

theorem relayReadable_empty (hpending : input.pending = []) (hqueue : input.queue = []) :
    relayReadable recvFails sendFails input output = .ok (input, output) := by
  simp [relayReadable, InSock.readable, hpending, hqueue]

theorem relayReadable_cons {m : Message F} {queue : List (Message F)}
    (hpending : input.pending = []) (hqueue : input.queue = m :: queue)
    (hall : ReceivesAll recvFails m) :
    relayReadable recvFails sendFails input output =
      (ZmqMutiMsg.sendMutiMsg sendFails m.frames output).map fun out => (⟨[], queue⟩, out.2) := by
  obtain rfl : input = ⟨[], m :: queue⟩ := by
    cases input
    simp_all
  simp only [relayReadable, InSock.readable, relayMsg, recvMutiMsg_all recvFails m queue hall]
  cases ZmqMutiMsg.sendMutiMsg sendFails m.frames output <;> rfl

/-- What a direction does whose outcomes are fine: it takes the next message, and sends it or
drops it. -/
theorem relayReadable_fine (hpending : input.pending = []) (hclean : output.unfinished = [])
    (hfine : DirectionFine recvFails sendFails input) :
    ∃ output', relayReadable recvFails sendFails input output =
        .ok (⟨[], input.queue.tail⟩, output') ∧
      DirectionWhole recvFails input output output' ∧ output'.unfinished = [] ∧
      (output'.sent = output.sent ∨ ∃ m, input.queue.head? = some m ∧
        output'.sent = output.sent ++ [m]) := by
  cases hqueue : input.queue with
  | nil =>
    obtain rfl : input = ⟨[], []⟩ := by
      cases input
      simp_all
    exact ⟨output, relayReadable_empty rfl rfl, by simp [DirectionWhole], hclean, Or.inl rfl⟩
  | cons m queue =>
    -- every frame of the message is received, so the send starts with its first
    obtain ⟨hall, hsends⟩ := hfine m (by simp [hqueue])
    obtain ⟨ok, output', hsend, hfinished, hsent⟩ :=
      (sendMutiMsg_clean_iff sendFails m output hclean).mpr hsends
    obtain rfl : input = ⟨[], m :: queue⟩ := by
      cases input
      simp_all
    have hframes := (recvMutiMsg_frames_iff recvFails m queue).mpr hall
    refine ⟨output', ?_, ⟨by simp, ?_⟩, hfinished, ?_⟩
    · rw [relayReadable_cons rfl rfl hall, hsend]
      rfl
    · intro m' hm'
      obtain rfl : m = m' := by simpa using hm'
      exact ⟨hframes, hfinished, hsent⟩
    · rcases hsent with hsent | hsent
      · exact Or.inl hsent
      · exact Or.inr ⟨m, rfl, hsent⟩

theorem directionFine_of_whole (hpending : input.pending = []) (hclean : output.unfinished = [])
    (h : relayReadable recvFails sendFails input output = .ok (input', output'))
    (hwhole : DirectionWhole recvFails input output output') :
    DirectionFine recvFails sendFails input := by
  intro m hm
  obtain ⟨hframes, hfinished, hsent⟩ := hwhole.2 m hm
  obtain ⟨queue, hqueue⟩ : ∃ queue, input.queue = m :: queue := by
    cases hq : input.queue with
    | nil => simp [hq] at hm
    | cons m' queue => exact ⟨queue, by simp_all⟩
  have hinput : input = ⟨[], m :: queue⟩ := by
    cases input
    simp_all
  rw [hinput] at hframes
  -- whole frames mean that every receive worked, and then the result of the send decides
  have hall := (recvMutiMsg_frames_iff recvFails m queue).mp hframes
  refine ⟨hall, (sendMutiMsg_clean_iff sendFails m output hclean).mp ?_⟩
  rw [relayReadable_cons hpending hqueue hall] at h
  cases hsend : ZmqMutiMsg.sendMutiMsg sendFails m.frames output with
  | error e =>
    rw [hsend] at h
    simp [Except.map] at h
  | ok out =>
    rw [hsend] at h
    simp only [Except.map, Except.ok.injEq, Prod.mk.injEq] at h
    exact ⟨out.1, out.2, rfl, by rw [h.2]; exact hfinished, by rw [h.2]; exact hsent⟩

end Direction

theorem round_fine {o : Outcomes} {s : Relay F} (hclean : s.Clean) (hfine : o.Fine s) :
    ∃ t, JudgeServer.round o s = .ok t ∧ t.Clean ∧
      DirectionWhole o.frontRecv s.front.input s.back.output t.back.output ∧
      DirectionWhole o.backRecv s.back.input s.front.output t.front.output ∧
      (t.back.output.sent ++ t.front.input.queue).Sublist
        (s.back.output.sent ++ s.front.input.queue) ∧
      (t.front.output.sent ++ t.back.input.queue).Sublist
        (s.front.output.sent ++ s.back.input.queue) := by
  -- a message that is taken from a queue is sent or dropped
  have hmoved : ∀ (sent sent' queue : List (Message F)),
      (sent' = sent ∨ ∃ m, queue.head? = some m ∧ sent' = sent ++ [m]) →
      (sent' ++ queue.tail).Sublist (sent ++ queue) := by
    rintro sent sent' queue (rfl | ⟨m, hm, rfl⟩)
    · exact (List.tail_sublist queue).append_left _
    · cases queue with
      | nil => simp at hm
      | cons m' queue =>
        obtain rfl : m' = m := by simpa using hm
        simp
  obtain ⟨backOut, hfront, hwhole, hfinished, hsent⟩ :=
    relayReadable_fine hclean.frontIn hclean.backOut hfine.1
  obtain ⟨frontOut, hback, hwhole', hfinished', hsent'⟩ :=
    relayReadable_fine hclean.backIn hclean.frontOut hfine.2
  refine ⟨⟨⟨⟨[], s.front.input.queue.tail⟩, frontOut⟩, ⟨⟨[], s.back.input.queue.tail⟩, backOut⟩⟩,
    ?_, ⟨rfl, hfinished', rfl, hfinished⟩, hwhole, hwhole', hmoved _ _ _ hsent,
    hmoved _ _ _ hsent'⟩
  simp [JudgeServer.round, hfront, hback]

theorem round_whole_iff (o : Outcomes) (s : Relay F) (hclean : s.Clean) :
    AllOrNothing o s ↔ o.Fine s := by
  constructor
  · rintro ⟨t, hround, hfront, hback⟩
    cases hf : relayReadable o.frontRecv o.backSend s.front.input s.back.output with
    | error e => simp [JudgeServer.round, hf] at hround
    | ok forward =>
      cases hb : relayReadable o.backRecv o.frontSend s.back.input s.front.output with
      | error e => simp [JudgeServer.round, hf, hb] at hround
      | ok backward =>
        simp only [JudgeServer.round, hf, hb, call_ok_bind, call_pure, Except.ok.injEq] at hround
        subst hround
        exact ⟨directionFine_of_whole hclean.frontIn hclean.backOut hf hfront,
          directionFine_of_whole hclean.backIn hclean.frontOut hb hback⟩
  · intro hfine
    obtain ⟨t, hround, _, hfront, hback, _⟩ := round_fine hclean hfine
    exact ⟨t, hround, hfront, hback⟩

/-- What happens at the relay: a message arrives at one of its sockets, or it makes a round. -/
inductive RelayAction (F : Type)
  | frontArrives (m : Message F)
  | backArrives (m : Message F)
  | round (o : Outcomes)

namespace RelayAction

def frontArrival : RelayAction F → Option (Message F)
  | frontArrives m => some m
  | _ => none

def backArrival : RelayAction F → Option (Message F)
  | backArrives m => some m
  | _ => none

def Fine (s : Relay F) : RelayAction F → Prop
  | round o => o.Fine s
  | _ => True

end RelayAction

def Relay.Steps (s : Relay F) (a : RelayAction F) (t : Relay F) : Prop :=
  match a with
  | .frontArrives m =>
    t = { s with front.input.queue := s.front.input.queue ++ [m] }
  | .backArrives m =>
    t = { s with back.input.queue := s.back.input.queue ++ [m] }
  | .round o => JudgeServer.round o s = .ok t

/-- A run of fine rounds leaves no message unfinished, and sends whole messages in the order
in which they came. -/
theorem relay_run_whole {s t : Relay F} {acts : List (RelayAction F)} (hs : s.Clean)
    (hrun : Run (When RelayAction.Fine Relay.Steps) s acts t) :
    t.Clean ∧
    (t.back.output.sent ++ t.front.input.queue).Sublist
      (s.back.output.sent ++ s.front.input.queue ++ acts.filterMap RelayAction.frontArrival) ∧
    (t.front.output.sent ++ t.back.input.queue).Sublist
      (s.front.output.sent ++ s.back.input.queue ++ acts.filterMap RelayAction.backArrival) := by
  -- along the run, what was sent and what is still queued grows by the arrivals at most
  induction hrun with
  | nil s => exact ⟨hs, by simp, by simp⟩
  | @cons s m t a acts hstep _ ih =>
    obtain ⟨hfine, hstep⟩ := hstep
    cases a with
    | frontArrives msg =>
      obtain rfl : m = { s with front.input.queue := s.front.input.queue ++ [msg] } := hstep
      obtain ⟨hclean, hback, hfront⟩ := ih ⟨hs.frontIn, hs.frontOut, hs.backIn, hs.backOut⟩
      refine ⟨hclean, ?_, hfront⟩
      simpa [RelayAction.frontArrival] using hback
    | backArrives msg =>
      obtain rfl : m = { s with back.input.queue := s.back.input.queue ++ [msg] } := hstep
      obtain ⟨hclean, hback, hfront⟩ := ih ⟨hs.frontIn, hs.frontOut, hs.backIn, hs.backOut⟩
      refine ⟨hclean, hback, ?_⟩
      simpa [RelayAction.backArrival] using hfront
    | round o =>
      obtain ⟨u, hround, hclean, _, _, hback, hfront⟩ := round_fine hs hfine
      obtain rfl : u = m := call_ok_unique hround hstep
      obtain ⟨hcleant, hbackt, hfrontt⟩ := ih hclean
      refine ⟨hcleant, hbackt.trans ?_, hfrontt.trans ?_⟩
      · exact hback.append (List.Sublist.refl _)
      · exact hfront.append (List.Sublist.refl _)

/-- A round is all or nothing in both directions exactly when, of each message it relays, all
receives work and the sends work or fail from the first frame on; and while all rounds are so,
no message is left unfinished and only whole messages are sent, each in its turn. -/
theorem relay_allOrNothing {s : Relay Bytes} (hs : s.Clean) :
    (∀ o : Outcomes, AllOrNothing o s ↔ o.Fine s) ∧
    ∀ (t : Relay Bytes) (acts : List (RelayAction Bytes)),
      Run (When RelayAction.Fine Relay.Steps) s acts t → t.Clean ∧
        t.back.output.sent.Sublist (s.back.output.sent ++ s.front.input.queue ++
          acts.filterMap RelayAction.frontArrival) ∧
        t.front.output.sent.Sublist (s.front.output.sent ++ s.back.input.queue ++
          acts.filterMap RelayAction.backArrival) := by
  refine ⟨fun o => round_whole_iff o s hs, ?_⟩
  intro t acts hrun
  obtain ⟨hclean, hback, hfront⟩ := relay_run_whole hs hrun
  exact ⟨hclean, (List.sublist_append_left _ _).trans hback,
    (List.sublist_append_left _ _).trans hfront⟩

section OneRequest

/-- A request as the front socket shows it: the identity of the client, the empty frame of its
`REQ` socket, and the data. -/
def oneRequest : Message Bytes := ⟨[0, 107, 139, 69, 103], [[], str "\x7b\x7d"]⟩

def oneRequestRelay : Relay Bytes where
  front := { input := { queue := [oneRequest] } }

/-- The third frame of the request cannot be sent. -/
def thirdSendFails : Outcomes where
  frontRecv _ := false
  backSend k := k = 2
  backRecv _ := false
  frontSend _ := false

theorem oneRequestRelay_clean : oneRequestRelay.Clean := ⟨rfl, rfl, rfl, rfl⟩

theorem relay_allOrNothing_oneRequest :
    (AllOrNothing thirdSendFails oneRequestRelay ↔ thirdSendFails.Fine oneRequestRelay) ∧
    ∀ (t : Relay Bytes) (acts : List (RelayAction Bytes)),
      Run (When RelayAction.Fine Relay.Steps) oneRequestRelay acts t → t.Clean ∧
        t.back.output.sent.Sublist (oneRequest :: acts.filterMap RelayAction.frontArrival) ∧
        t.front.output.sent.Sublist (acts.filterMap RelayAction.backArrival) :=
  ⟨(relay_allOrNothing oneRequestRelay_clean).1 thirdSendFails,
    (relay_allOrNothing oneRequestRelay_clean).2⟩

/-- The first receive of the round fails, and `sendMutiMsg` is run on an empty vector. -/
theorem not_allOrNothing : ¬ ∀ (o : Outcomes) (s : Relay Bytes), s.Clean → AllOrNothing o s := by
  intro hclaim
  obtain ⟨t, hround, _⟩ := hclaim
    ⟨fun _ => true, fun _ => false, fun _ => false, fun _ => false⟩ oneRequestRelay
    oneRequestRelay_clean
  have hundefined : JudgeServer.round
      ⟨fun _ => true, fun _ => false, fun _ => false, fun _ => false⟩ oneRequestRelay =
        .error .undefined := rfl
  rw [hundefined] at hround
  simp at hround

end OneRequest

end OnlineJudge
