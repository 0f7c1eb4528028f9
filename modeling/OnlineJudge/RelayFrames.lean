import OnlineJudge.Network

/-! The frames in the relay when any receive and any send can fail: messages can be cut and run
together, but no frame is made up, doubled or moved in front of another. -/
namespace OnlineJudge
open Transition

variable {F : Type}

/-- The frames that wait at a socket. -/
def InSock.frames (s : InSock F) : List F := s.pending ++ s.queue.flatMap Message.frames

/-- The frames that went out. -/
def OutSock.frames (s : OutSock F) : List F := s.sent.flatMap Message.frames ++ s.unfinished

section Direction
variable (fails : ℕ → Bool)

/-- Every frame of the message is received or still pending. -/
theorem recvMore_frames (k : ℕ) (msgs pending : List F) :
    (ZmqMutiMsg.recvMore fails k msgs pending).2.1 ++
      (ZmqMutiMsg.recvMore fails k msgs pending).2.2 = msgs ++ pending := by
  induction pending generalizing k msgs with
  | nil => rfl
  | cons frame pending ih =>
    unfold ZmqMutiMsg.recvMore
    split_ifs
    · rfl
    · rw [ih (k+1) (msgs ++ [frame]), List.append_assoc]
      rfl

theorem recvMsg_frames {fail : Bool} {s s' : InSock F} {frame : F}
    (h : ZmqMsg.recvMsg fail s = some (frame, s')) : frame :: s'.frames = s.frames := by
  unfold ZmqMsg.recvMsg at h
  split_ifs at h
  obtain ⟨pending, queue⟩ := s
  cases pending with
  | cons first pending =>
    obtain ⟨rfl, rfl⟩ : first = frame ∧ ⟨pending, queue⟩ = s' := by simpa using h
    rfl
  | nil =>
    cases queue with
    | nil => simp at h
    | cons m queue =>
      obtain ⟨rfl, rfl⟩ : m.head = frame ∧ ⟨m.tail, queue⟩ = s' := by simpa using h
      simp [InSock.frames, Message.frames]

theorem recvMutiMsg_frames (s : InSock F) :
    (ZmqMutiMsg.recvMutiMsg fails s).2.1 ++ (ZmqMutiMsg.recvMutiMsg fails s).2.2.frames =
      s.frames := by
  unfold ZmqMutiMsg.recvMutiMsg
  cases hrecv : ZmqMsg.recvMsg (fails 0) s with
  | none => rfl
  | some out =>
    obtain ⟨frame, s'⟩ := out
    have hmore := recvMore_frames fails 1 [frame] s'.pending
    rw [← recvMsg_frames hrecv]
    simp only [InSock.frames, ← List.append_assoc, hmore]
    rfl

theorem finish_frames (s : OutSock F) (frame : F) :
    (s.finish frame).frames = s.frames ++ [frame] := by
  obtain ⟨m, hfinish, hframes⟩ := s.finish_frames frame
  rw [hfinish]
  simp [OutSock.frames, hframes]

/-- The frames in front of the first send that fails go out. -/
theorem sendFrames_frames (k : ℕ) (frame : F) (rest : List F) (s : OutSock F) :
    ∃ sent, sent <+: frame :: rest ∧
      (ZmqMutiMsg.sendFrames fails k frame rest s).2.frames = s.frames ++ sent := by
  -- the loop stops at the first send that fails
  induction rest generalizing k frame s with
  | nil =>
    cases hfail : fails k with
    | true => exact ⟨[], List.nil_prefix, by simp [ZmqMutiMsg.sendFrames, ZmqMsg.sendMsg, hfail]⟩
    | false =>
      refine ⟨[frame], List.prefix_rfl, ?_⟩
      simp [ZmqMutiMsg.sendFrames, ZmqMsg.sendMsg, hfail, finish_frames]
  | cons next rest ih =>
    cases hfail : fails k with
    | true => exact ⟨[], List.nil_prefix, by simp [ZmqMutiMsg.sendFrames, ZmqMsg.sendMsg, hfail]⟩
    | false =>
      obtain ⟨sent, hsent, hframes⟩ :=
        ih (k+1) next { s with unfinished := s.unfinished ++ [frame] }
      refine ⟨frame :: sent, (List.prefix_cons_inj frame).mpr hsent, ?_⟩
      simp only [ZmqMutiMsg.sendFrames, ZmqMsg.sendMsg, hfail, Bool.false_eq_true, if_false,
        if_true, hframes]
      simp [OutSock.frames]

variable {recvFails sendFails : ℕ → Bool} {input input' : InSock F} {output output' : OutSock F}

/-- A direction takes frames from one side and puts them on the other, or drops them. -/
theorem relayReadable_frames
    (h : relayReadable recvFails sendFails input output = .ok (input', output')) :
    (output'.frames ++ input'.frames).Sublist (output.frames ++ input.frames) := by
  unfold relayReadable at h
  split_ifs at h
  · have hreceived := recvMutiMsg_frames recvFails input
    unfold relayMsg at h
    cases hmsgs : (ZmqMutiMsg.recvMutiMsg recvFails input).2.1 with
    | nil => simp [hmsgs, ZmqMutiMsg.sendMutiMsg] at h
    | cons frame rest =>
      obtain ⟨sent, hsent, hframes⟩ := sendFrames_frames sendFails 0 frame rest output
      simp only [hmsgs, ZmqMutiMsg.sendMutiMsg, call_ok_bind, call_pure, Except.ok.injEq,
        Prod.mk.injEq] at h
      rw [hmsgs] at hreceived
      rw [← h.1, ← h.2, hframes, ← hreceived, List.append_assoc]
      exact (hsent.sublist.append (List.Sublist.refl _)).append_left _
  · obtain ⟨rfl, rfl⟩ : input = input' ∧ output = output' := by simpa using h
    exact List.Sublist.refl _

end Direction

theorem round_frames {o : Outcomes} {s t : Relay F} (h : JudgeServer.round o s = .ok t) :
    (t.back.output.frames ++ t.front.input.frames).Sublist
      (s.back.output.frames ++ s.front.input.frames) ∧
    (t.front.output.frames ++ t.back.input.frames).Sublist
      (s.front.output.frames ++ s.back.input.frames) := by
  unfold JudgeServer.round at h
  cases hforth : relayReadable o.frontRecv o.backSend s.front.input s.back.output with
  | error e => simp [hforth] at h
  | ok forward =>
    cases hhome : relayReadable o.backRecv o.frontSend s.back.input s.front.output with
    | error e => simp [hforth, hhome] at h
    | ok backward =>
      simp only [hforth, hhome, call_ok_bind, call_pure, Except.ok.injEq] at h
      rw [← h]
      exact ⟨relayReadable_frames hforth, relayReadable_frames hhome⟩

/-- Whatever receives and sends fail, what the relay has sent, with what it has still to receive,
is what came to it with some frames left out: no frame is made up, doubled or reordered. -/
theorem relay_frames {s t : Relay F} {acts : List (RelayAction F)}
    (hrun : Run Relay.Steps s acts t) :
    (t.back.output.frames ++ t.front.input.frames).Sublist
      (s.back.output.frames ++ s.front.input.frames ++
        (acts.filterMap RelayAction.frontArrival).flatMap Message.frames) ∧
    (t.front.output.frames ++ t.back.input.frames).Sublist
      (s.front.output.frames ++ s.back.input.frames ++
        (acts.filterMap RelayAction.backArrival).flatMap Message.frames) := by
  -- along the run, both sides together grow by the arrivals at most
  induction hrun with
  | nil s => simp
  | @cons s m t a acts hstep _ ih =>
    obtain ⟨hback, hfront⟩ := ih
    cases a with
    | frontArrives msg =>
      obtain rfl : m = { s with front.input.queue := s.front.input.queue ++ [msg] } := hstep
      refine ⟨?_, hfront⟩
      simpa [RelayAction.frontArrival, InSock.frames] using hback
    | backArrives msg =>
      obtain rfl : m = { s with back.input.queue := s.back.input.queue ++ [msg] } := hstep
      refine ⟨hback, ?_⟩
      simpa [RelayAction.backArrival, InSock.frames] using hfront
    | round o =>
      obtain ⟨hforth, hhome⟩ := round_frames hstep
      exact ⟨hback.trans (hforth.append (List.Sublist.refl _)),
        hfront.trans (hhome.append (List.Sublist.refl _))⟩

section Order

/-- Every operation on the message at the head of a queue works. -/
def DirectionWorks (recvFails sendFails : ℕ → Bool) (input : InSock F) : Prop :=
  ∀ m ∈ input.queue.head?, ReceivesAll recvFails m ∧
    ∀ k < m.frames.length, sendFails k = false

def RelayAction.Works (s : Relay F) : RelayAction F → Prop
  | .round o => DirectionWorks o.frontRecv o.backSend s.front.input ∧
      DirectionWorks o.backRecv o.frontSend s.back.input
  | _ => True

def RelayAction.isRound : RelayAction F → Bool
  | .round _ => true
  | _ => false

theorem relayReadable_works {recvFails sendFails : ℕ → Bool} {input : InSock F}
    {output : OutSock F} (hpending : input.pending = []) (hclean : output.unfinished = [])
    (h : DirectionWorks recvFails sendFails input) :
    relayReadable recvFails sendFails input output =
      .ok (⟨[], input.queue.tail⟩, ⟨[], output.sent ++ input.queue.head?.toList⟩) := by
  obtain ⟨pending, queue⟩ := input
  obtain ⟨unfinished, sent⟩ := output
  simp only at hpending hclean
  subst hpending hclean
  cases queue with
  | nil =>
    rw [relayReadable_empty rfl rfl]
    simp
  | cons m queue =>
    obtain ⟨hall, hsends⟩ := h m (by simp)
    rw [relayReadable_cons rfl rfl hall, sendMutiMsg_all sendFails m _ rfl hsends]
    rfl

/-- What a direction has sent and has still to send, after some of its rounds: nothing is lost or
moved, and every round has sent one message as long as there was one. -/
structure InOrder (sent queue sent' queue' arrived : List (Message F)) (rounds : ℕ) : Prop where
  whole : sent' ++ queue' = sent ++ queue ++ arrived
  served : sent.length+min rounds queue.length ≤ sent'.length

theorem inOrder_arrives {sent queue sent' queue' arrived : List (Message F)} {rounds : ℕ}
    {m : Message F} (h : InOrder sent (queue ++ [m]) sent' queue' arrived rounds) :
    InOrder sent queue sent' queue' (m :: arrived) rounds := by
  constructor
  · rw [h.whole]
    simp
  · have hserved := h.served
    rw [List.length_append, List.length_singleton] at hserved
    omega

theorem inOrder_round {sent queue sent' queue' arrived : List (Message F)} {rounds : ℕ}
    (h : InOrder (sent ++ queue.head?.toList) queue.tail sent' queue' arrived rounds) :
    InOrder sent queue sent' queue' arrived (rounds+1) := by
  obtain ⟨hwhole, hserved⟩ := h
  cases queue with
  | nil => exact ⟨by simpa using hwhole, by simpa using hserved⟩
  | cons m queue =>
    constructor
    · simpa using hwhole
    · simp only [List.head?_cons, Option.toList_some, List.length_append, List.tail_cons,
        List.length_cons, List.length_nil] at hserved ⊢
      omega

/-- While every operation works, each direction sends its messages whole, in the order in which
they came, and no traffic the other way holds them up: of those that wait, one is sent in each
round. -/
theorem relay_serves {s t : Relay F} {acts : List (RelayAction F)} (hs : s.Clean)
    (hrun : Run (When RelayAction.Works Relay.Steps) s acts t) :
    InOrder s.back.output.sent s.front.input.queue t.back.output.sent t.front.input.queue
      (acts.filterMap RelayAction.frontArrival) (acts.countP RelayAction.isRound) ∧
    InOrder s.front.output.sent s.back.input.queue t.front.output.sent t.back.input.queue
      (acts.filterMap RelayAction.backArrival) (acts.countP RelayAction.isRound) := by
  induction hrun with
  | nil s => exact ⟨⟨by simp, by simp⟩, by simp, by simp⟩
  | @cons s m t a acts hstep _ ih =>
    obtain ⟨hworks, hstep⟩ := hstep
    cases a with
    | frontArrives msg =>
      obtain rfl : m = { s with front.input.queue := s.front.input.queue ++ [msg] } := hstep
      obtain ⟨hforth, hhome⟩ := ih ⟨hs.frontIn, hs.frontOut, hs.backIn, hs.backOut⟩
      exact ⟨inOrder_arrives hforth, hhome⟩
    | backArrives msg =>
      obtain rfl : m = { s with back.input.queue := s.back.input.queue ++ [msg] } := hstep
      obtain ⟨hforth, hhome⟩ := ih ⟨hs.frontIn, hs.frontOut, hs.backIn, hs.backOut⟩
      exact ⟨hforth, inOrder_arrives hhome⟩
    -- one round takes the head of each queue to the other side
    | round o =>
      have hfront := relayReadable_works hs.frontIn hs.backOut hworks.1
      have hback := relayReadable_works hs.backIn hs.frontOut hworks.2
      have hround : JudgeServer.round o s = .ok m := hstep
      simp only [JudgeServer.round, hfront, hback, call_ok_bind, call_pure,
        Except.ok.injEq] at hround
      subst hround
      obtain ⟨hforth, hhome⟩ := ih ⟨rfl, rfl, rfl, rfl⟩
      rw [List.countP_cons_of_pos rfl]
      exact ⟨inOrder_round hforth, inOrder_round hhome⟩

end Order

section OneRequest

/-- The first two frames of the request have gone out, and the third is lost. -/
def cutRelay : Relay Bytes where
  back := { output := { unfinished := [[0, 107, 139, 69, 103], []] } }

theorem cutRelay_round :
    Relay.Steps oneRequestRelay (.round thirdSendFails) cutRelay := rfl

theorem relay_frames_oneRequest :
    (cutRelay.back.output.frames ++ cutRelay.front.input.frames).Sublist oneRequest.frames ∧
    (cutRelay.front.output.frames ++ cutRelay.back.input.frames).Sublist [] :=
  relay_frames (.single cutRelay_round)

def relayedOnce : Relay Bytes where
  back := { output := { sent := [oneRequest] } }

theorem relay_serves_oneRequest :
    InOrder [] [oneRequest] relayedOnce.back.output.sent relayedOnce.front.input.queue [] 1 ∧
    InOrder [] [] relayedOnce.front.output.sent relayedOnce.back.input.queue [] 1 := by
  have hworks : RelayAction.Works oneRequestRelay (.round .working) :=
    ⟨fun _ _ => ⟨fun _ _ => rfl, fun _ _ => rfl⟩, fun _ _ => ⟨fun _ _ => rfl, fun _ _ => rfl⟩⟩
  have hround : Relay.Steps oneRequestRelay (.round .working) relayedOnce := rfl
  exact relay_serves oneRequestRelay_clean (.single ⟨hworks, hround⟩)

end OneRequest

end OnlineJudge
