import OnlineJudge.Protocol

/-! Multi-part messages of ZeroMQ: `ZmqMutiMsg` receives and sends them frame by frame, and
each of its calls can fail at any frame. Nothing here looks into a frame, so its type is left
open. -/
namespace OnlineJudge

/-- A message has at least one frame. -/
structure Message (F : Type) where
  head : F
  tail : List F
  deriving DecidableEq

variable {F : Type}

def Message.frames (m : Message F) : List F := m.head :: m.tail

def Message.map {G : Type} (f : F → G) (m : Message F) : Message G := ⟨f m.head, m.tail.map f⟩

/-- The receiving side of a socket: what is left of a message whose first frames have been
received, and the messages behind it. -/
structure InSock (F : Type) where
  pending : List F := []
  queue : List (Message F) := []
  deriving DecidableEq

/-- The sending side of a socket: the frames sent with `ZMQ_SNDMORE` that no last frame has
followed yet, and the messages that were sent. -/
structure OutSock (F : Type) where
  unfinished : List F := []
  sent : List (Message F) := []
  deriving DecidableEq

def InSock.map {G : Type} (f : F → G) (s : InSock F) : InSock G :=
  { pending := s.pending.map f, queue := s.queue.map (Message.map f) }

def OutSock.map {G : Type} (f : F → G) (s : OutSock F) : OutSock G :=
  { unfinished := s.unfinished.map f, sent := s.sent.map (Message.map f) }

/-- `zmq_poll` finds a frame to be received. -/
def InSock.readable (s : InSock F) : Bool := !s.pending.isEmpty || !s.queue.isEmpty

/-- The last frame of a message, behind those sent before. -/
def OutSock.finish (s : OutSock F) (frame : F) : OutSock F :=
  { unfinished := []
    sent := s.sent ++
      [match s.unfinished with
        | [] => ⟨frame, []⟩
        | head :: tail => ⟨head, tail ++ [frame]⟩] }

namespace ZmqMsg

/-- `recvMsg`; a call that fails takes nothing from the socket. -/
def recvMsg (fails : Bool) (s : InSock F) : Option (F × InSock F) :=
  if fails then none
  else
    match s.pending, s.queue with
    | frame :: pending, _ => some (frame, { s with pending })
    | [], m :: queue => some (m.head, { pending := m.tail, queue })
    | [], [] => none

/-- `sendMsg`; a call that fails puts nothing on the socket. -/
def sendMsg (fails sndmore : Bool) (frame : F) (s : OutSock F) : Option (OutSock F) :=
  if fails then none
  else if sndmore then some { s with unfinished := s.unfinished ++ [frame] }
  else some (s.finish frame)

end ZmqMsg

namespace ZmqMutiMsg

/-- The loop of `recvMutiMsg` while `ZMQ_RCVMORE` says that frames are pending; `fails k` tells
whether call `k` of `recvMsg` fails. -/
def recvMore (fails : ℕ → Bool) : ℕ → List F → List F → Bool × List F × List F
  | _, msgs, [] => (true, msgs, [])
  | k, msgs, frame :: pending =>
    if fails k then (false, msgs, frame :: pending)
    else recvMore fails (k+1) (msgs ++ [frame]) pending

/-- `recvMutiMsg`, with the frames that it leaves in `msgs_`. -/
def recvMutiMsg (fails : ℕ → Bool) (s : InSock F) : Bool × List F × InSock F :=
  match ZmqMsg.recvMsg (fails 0) s with
  | none => (false, [], s)
  | some (frame, s) =>
    let (ok, msgs, pending) := recvMore fails 1 [frame] s.pending
    (ok, msgs, { s with pending })

/-- The loop of `sendMutiMsg`, and its last call for the frame that ends the message. -/
def sendFrames (fails : ℕ → Bool) : ℕ → F → List F → OutSock F → Bool × OutSock F
  | k, frame, [], s =>
    match ZmqMsg.sendMsg (fails k) false frame s with
    | none => (false, s)
    | some s => (true, s)
  | k, frame, next :: rest, s =>
    match ZmqMsg.sendMsg (fails k) true frame s with
    | none => (false, s)
    | some s => sendFrames fails (k+1) next rest s

/-- `sendMutiMsg`; on an empty vector `end() - 1` is undefined. -/
def sendMutiMsg (fails : ℕ → Bool) (msgs : List F) (s : OutSock F) : Call (Bool × OutSock F) :=
  match msgs with
  | [] => .error .undefined
  | frame :: rest => .ok (sendFrames fails 0 frame rest s)

end ZmqMutiMsg

section Receive
variable (fails : ℕ → Bool)

theorem recvMore_all (k : ℕ) (msgs pending : List F)
    (h : ∀ j < pending.length, fails (k+j) = false) :
    ZmqMutiMsg.recvMore fails k msgs pending = (true, msgs ++ pending, []) := by
  induction pending generalizing k msgs with
  | nil => simp [ZmqMutiMsg.recvMore]
  | cons frame pending ih =>
    have hfirst : fails k = false := h 0 (by simp)
    have hrest : ∀ j < pending.length, fails (k+1+j) = false := by
      intro j hj
      have hnext := h (j+1) (by simpa using hj)
      rwa [show k+1+j = k+(j+1) by omega]
    simp only [ZmqMutiMsg.recvMore, hfirst, Bool.false_eq_true, if_false]
    rw [ih (k+1) (msgs ++ [frame]) hrest, List.append_assoc, List.singleton_append]

/-- A failure leaves fewer frames in the vector than the message has. -/
theorem recvMore_short (k : ℕ) (msgs pending : List F) (j : ℕ) (hj : j < pending.length)
    (h : fails (k+j) = true) :
    (ZmqMutiMsg.recvMore fails k msgs pending).2.1.length < msgs.length+pending.length := by
  induction pending generalizing k msgs j with
  | nil => simp at hj
  | cons frame pending ih =>
    cases hfirst : fails k with
    | true => simp [ZmqMutiMsg.recvMore, hfirst]
    | false =>
      cases j with
      | zero => simp [hfirst] at h
      | succ j =>
        have hnext := ih (k+1) (msgs ++ [frame]) j (by simpa using hj)
          (by rwa [show k+1+j = k+(j+1) by omega])
        simp only [ZmqMutiMsg.recvMore, hfirst, Bool.false_eq_true, if_false]
        simp only [List.length_append, List.length_cons, List.length_nil] at hnext ⊢
        omega

def ReceivesAll (m : Message F) : Prop := ∀ k < m.frames.length, fails k = false

theorem recvMutiMsg_all (m : Message F) (queue : List (Message F)) (h : ReceivesAll fails m) :
    ZmqMutiMsg.recvMutiMsg fails ⟨[], m :: queue⟩ = (true, m.frames, ⟨[], queue⟩) := by
  have hfirst : fails 0 = false := h 0 (by simp [Message.frames])
  have hrest : ∀ j < m.tail.length, fails (1+j) = false := by
    intro j hj
    exact h (1+j) (by simp only [Message.frames, List.length_cons]; omega)
  simp only [ZmqMutiMsg.recvMutiMsg, ZmqMsg.recvMsg, hfirst, Bool.false_eq_true, if_false]
  rw [recvMore_all fails 1 [m.head] m.tail hrest]
  rfl

theorem recvMutiMsg_frames_iff (m : Message F) (queue : List (Message F)) :
    (ZmqMutiMsg.recvMutiMsg fails ⟨[], m :: queue⟩).2.1 = m.frames ↔ ReceivesAll fails m := by
  constructor
  · intro hframes k hk
    -- a receive that fails cuts the message short, at the first frame or behind it
    by_contra hfail
    have hfail : fails k = true := by simpa using hfail
    cases hfirst : fails 0 with
    | true =>
      simp [ZmqMutiMsg.recvMutiMsg, ZmqMsg.recvMsg, hfirst, Message.frames] at hframes
    | false =>
      cases k with
      | zero => simp [hfirst] at hfail
      | succ k =>
        have hshort := recvMore_short fails 1 [m.head] m.tail k
          (by simpa [Message.frames] using hk) (by rwa [Nat.add_comm])
        simp only [ZmqMutiMsg.recvMutiMsg, ZmqMsg.recvMsg, hfirst, Bool.false_eq_true,
          if_false] at hframes
        rw [hframes] at hshort
        simp [Message.frames] at hshort
        omega
  · intro h
    rw [recvMutiMsg_all fails m queue h]

end Receive

section Send
variable (fails : ℕ → Bool)

/-- The message that `unfinished` becomes when these frames end it. -/
def joined (unfinished : List F) (frame : F) (rest : List F) : Message F :=
  match unfinished with
  | [] => ⟨frame, rest⟩
  | head :: tail => ⟨head, tail ++ frame :: rest⟩

theorem joined_append (unfinished : List F) (frame next : F) (rest : List F) :
    joined (unfinished ++ [frame]) next rest = joined unfinished frame (next :: rest) := by
  cases unfinished <;> simp [joined]

theorem sendFrames_all (k : ℕ) (frame : F) (rest : List F) (s : OutSock F)
    (h : ∀ j < rest.length+1, fails (k+j) = false) :
    ZmqMutiMsg.sendFrames fails k frame rest s =
      (true, { unfinished := [], sent := s.sent ++ [joined s.unfinished frame rest] }) := by
  induction rest generalizing k frame s with
  | nil =>
    have hfirst : fails k = false := h 0 (by simp)
    cases hopen : s.unfinished <;>
      simp [ZmqMutiMsg.sendFrames, ZmqMsg.sendMsg, hfirst, OutSock.finish, joined, hopen]
  | cons next rest ih =>
    have hfirst : fails k = false := h 0 (by simp)
    have hrest : ∀ j < rest.length+1, fails (k+1+j) = false := by
      intro j hj
      have hnext := h (j+1) (by simpa using hj)
      rwa [show k+1+j = k+(j+1) by omega]
    simp only [ZmqMutiMsg.sendFrames, ZmqMsg.sendMsg, hfirst, Bool.false_eq_true, if_false,
      if_true]
    rw [ih (k+1) next _ hrest, joined_append]

/-- A send that fails behind the first frame leaves the message unfinished. -/
theorem sendFrames_unfinished (k : ℕ) (frame : F) (rest : List F) (s : OutSock F)
    (hopen : s.unfinished ≠ [] ∨ fails k = false) (j : ℕ) (hj : j < rest.length+1)
    (h : fails (k+j) = true) :
    (ZmqMutiMsg.sendFrames fails k frame rest s).2.unfinished ≠ [] := by
  induction rest generalizing k frame s j with
  | nil =>
    obtain rfl : j = 0 := by simpa using hj
    have hfirst : fails k = true := h
    simpa [ZmqMutiMsg.sendFrames, ZmqMsg.sendMsg, hfirst] using hopen
  | cons next rest ih =>
    cases hfirst : fails k with
    | true => simpa [ZmqMutiMsg.sendFrames, ZmqMsg.sendMsg, hfirst] using hopen
    | false =>
      cases j with
      | zero => simp [hfirst] at h
      | succ j =>
        simp only [ZmqMutiMsg.sendFrames, ZmqMsg.sendMsg, hfirst, Bool.false_eq_true, if_false,
          if_true]
        exact ih (k+1) next _ (Or.inl (by simp)) j (by simpa using hj)
          (by rwa [show k+1+j = k+(j+1) by omega])

def SendsAllOrNone (m : Message F) : Prop :=
  fails 0 = true ∨ ∀ k < m.frames.length, fails k = false

theorem sendMutiMsg_first_fails (m : Message F) (s : OutSock F) (h : fails 0 = true) :
    ZmqMutiMsg.sendMutiMsg fails m.frames s = .ok (false, s) := by
  cases htail : m.tail <;>
    simp [ZmqMutiMsg.sendMutiMsg, Message.frames, ZmqMutiMsg.sendFrames, ZmqMsg.sendMsg, h, htail]

theorem sendMutiMsg_all (m : Message F) (s : OutSock F) (hclean : s.unfinished = [])
    (h : ∀ k < m.frames.length, fails k = false) :
    ZmqMutiMsg.sendMutiMsg fails m.frames s = .ok (true, ⟨[], s.sent ++ [m]⟩) := by
  have hsend := sendFrames_all fails 0 m.head m.tail s
    (by simpa [Message.frames] using h)
  simp only [ZmqMutiMsg.sendMutiMsg, Message.frames, hsend, hclean, joined]

theorem sendMutiMsg_clean_iff (m : Message F) (s : OutSock F) (hclean : s.unfinished = []) :
    (∃ ok s', ZmqMutiMsg.sendMutiMsg fails m.frames s = .ok (ok, s') ∧ s'.unfinished = [] ∧
      (s'.sent = s.sent ∨ s'.sent = s.sent ++ [m])) ↔ SendsAllOrNone fails m := by
  constructor
  · rintro ⟨ok, s', hsend, hopen, _⟩
    by_contra hnot
    simp only [SendsAllOrNone, not_or, not_forall, Bool.not_eq_true, Bool.not_eq_false] at hnot
    obtain ⟨hfirst, j, hj, hfail⟩ := hnot
    have hleft := sendFrames_unfinished fails 0 m.head m.tail s (Or.inr hfirst) j
      (by simpa [Message.frames] using hj) (by rwa [Nat.zero_add])
    simp only [ZmqMutiMsg.sendMutiMsg, Message.frames, Except.ok.injEq] at hsend
    rw [hsend] at hleft
    exact hleft hopen
  · rintro (hfirst | hall)
    · exact ⟨false, s, sendMutiMsg_first_fails fails m s hfirst, hclean, Or.inl rfl⟩
    · exact ⟨true, _, sendMutiMsg_all fails m s hclean hall, rfl, Or.inr rfl⟩

end Send

section Wire

/-- The frames of a message with the flag that another one follows. -/
def flagged : List F → List (F × Bool)
  | [] => []
  | [frame] => [(frame, false)]
  | frame :: next :: rest => (frame, true) :: flagged (next :: rest)

/-- The frames that wait at a socket, each with `ZMQ_RCVMORE` as it reads once it is received. -/
def InSock.wire (s : InSock F) : List (F × Bool) :=
  flagged s.pending ++ s.queue.flatMap (fun m => flagged m.frames)

/-- The frames that went out, each with the `ZMQ_SNDMORE` of its call. -/
def OutSock.wire (s : OutSock F) : List (F × Bool) :=
  s.sent.flatMap (fun m => flagged m.frames) ++ s.unfinished.map (·, true)

theorem flagged_append_singleton (frames : List F) (frame : F) :
    flagged (frames ++ [frame]) = frames.map (·, true) ++ [(frame, false)] := by
  induction frames with
  | nil => rfl
  | cons first frames ih =>
    -- whatever follows the first frame, something does
    have hmore (tail : List F) (htail : tail ≠ []) :
        flagged (first :: tail) = (first, true) :: flagged tail := by
      cases tail with
      | nil => exact absurd rfl htail
      | cons next rest => rfl
    rw [List.cons_append, hmore _ (by simp), ih]
    rfl

theorem OutSock.finish_frames (s : OutSock F) (frame : F) :
    ∃ m : Message F, s.finish frame = ⟨[], s.sent ++ [m]⟩ ∧ m.frames = s.unfinished ++ [frame] := by
  cases hopen : s.unfinished with
  | nil => exact ⟨⟨frame, []⟩, by simp [OutSock.finish, hopen], rfl⟩
  | cons head tail => exact ⟨⟨head, tail ++ [frame]⟩, by simp [OutSock.finish, hopen], rfl⟩

/-- A `recvMsg` that succeeds takes the first frame, and `ZMQ_RCVMORE` then tells whether frames
of the same message are pending. -/
theorem recvMsg_wire {s s' : InSock F} {frame : F}
    (h : ZmqMsg.recvMsg false s = some (frame, s')) :
    s.wire = (frame, !s'.pending.isEmpty) :: s'.wire := by
  have hfirst (first : F) (rest : List F) :
      flagged (first :: rest) = (first, !rest.isEmpty) :: flagged rest := by
    cases rest <;> rfl
  obtain ⟨pending, queue⟩ := s
  cases pending with
  | cons first pending =>
    obtain ⟨rfl, rfl⟩ : first = frame ∧ ⟨pending, queue⟩ = s' := by
      simpa [ZmqMsg.recvMsg] using h
    simp only [InSock.wire, hfirst, List.cons_append]
  | nil =>
    cases queue with
    | nil => simp [ZmqMsg.recvMsg] at h
    | cons m queue =>
      obtain ⟨rfl, rfl⟩ : m.head = frame ∧ ⟨m.tail, queue⟩ = s' := by
        simpa [ZmqMsg.recvMsg] using h
      simp [InSock.wire, Message.frames, hfirst, flagged]

/-- A `sendMsg` that succeeds puts its frame out under its own flag. -/
theorem sendMsg_wire {s s' : OutSock F} {sndmore : Bool} {frame : F}
    (h : ZmqMsg.sendMsg false sndmore frame s = some s') :
    s'.wire = s.wire ++ [(frame, sndmore)] := by
  cases sndmore with
  | true =>
    obtain rfl : { s with unfinished := s.unfinished ++ [frame] } = s' := by
      simpa [ZmqMsg.sendMsg] using h
    simp [OutSock.wire]
  | false =>
    obtain ⟨m, hfinish, hframes⟩ := s.finish_frames frame
    obtain rfl : ⟨[], s.sent ++ [m]⟩ = s' := by
      simpa [ZmqMsg.sendMsg, hfinish] using h
    simp [OutSock.wire, hframes, flagged_append_singleton]

theorem sendFrames_wire (k : ℕ) (frame : F) (rest : List F) (s : OutSock F) :
    ∃ s', ZmqMutiMsg.sendFrames (fun _ => false) k frame rest s = (true, s') ∧
      s'.wire = s.wire ++ flagged (frame :: rest) := by
  induction rest generalizing k frame s with
  | nil =>
    have hsend : ZmqMsg.sendMsg false false frame s = some (s.finish frame) := rfl
    exact ⟨s.finish frame, rfl, sendMsg_wire hsend⟩
  | cons next rest ih =>
    have hsend : ZmqMsg.sendMsg false true frame s =
      some { s with unfinished := s.unfinished ++ [frame] } := rfl
    obtain ⟨s', hrest, hwire⟩ := ih (k+1) next { s with unfinished := s.unfinished ++ [frame] }
    refine ⟨s', hrest, ?_⟩
    rw [hwire, sendMsg_wire hsend, List.append_assoc]
    rfl

/-- One step of a relay takes the frames of one message off its socket and puts the same frames,
with the same ends, on the other. -/
theorem relayStep_identity (m : Message F) (queue : List (Message F)) (out : OutSock F) :
    ∃ s out', ZmqMutiMsg.recvMutiMsg (fun _ => false) ⟨[], m :: queue⟩ = (true, m.frames, s) ∧
      s = ⟨[], queue⟩ ∧ (⟨[], m :: queue⟩ : InSock F).wire = flagged m.frames ++ s.wire ∧
      ZmqMutiMsg.sendMutiMsg (fun _ => false) m.frames out = .ok (true, out') ∧
      out'.wire = out.wire ++ flagged m.frames := by
  obtain ⟨out', hsend, hwire⟩ := sendFrames_wire 0 m.head m.tail out
  refine ⟨⟨[], queue⟩, out', recvMutiMsg_all _ m queue (fun _ _ => rfl), rfl, ?_, ?_, hwire⟩
  · simp [InSock.wire, flagged]
  · simp only [ZmqMutiMsg.sendMutiMsg, Message.frames, hsend]

end Wire

section Map
variable {G : Type} (f : F → G) (fails : ℕ → Bool)

theorem recvMore_map (k : ℕ) (msgs pending : List F) :
    ZmqMutiMsg.recvMore fails k (msgs.map f) (pending.map f) =
      ((ZmqMutiMsg.recvMore fails k msgs pending).1,
        (ZmqMutiMsg.recvMore fails k msgs pending).2.1.map f,
        (ZmqMutiMsg.recvMore fails k msgs pending).2.2.map f) := by
  induction pending generalizing k msgs with
  | nil => rfl
  | cons frame pending ih =>
    cases hfirst : fails k with
    | true => simp [ZmqMutiMsg.recvMore, hfirst]
    | false =>
      have hnext := ih (k+1) (msgs ++ [frame])
      rw [List.map_append, List.map_singleton] at hnext
      simp only [ZmqMutiMsg.recvMore, List.map_cons, hfirst, Bool.false_eq_true, if_false]
      exact hnext

theorem recvMutiMsg_map (s : InSock F) :
    ZmqMutiMsg.recvMutiMsg fails (s.map f) =
      ((ZmqMutiMsg.recvMutiMsg fails s).1, (ZmqMutiMsg.recvMutiMsg fails s).2.1.map f,
        (ZmqMutiMsg.recvMutiMsg fails s).2.2.map f) := by
  obtain ⟨pending, queue⟩ := s
  cases hfirst : fails 0 with
  | true => simp [ZmqMutiMsg.recvMutiMsg, ZmqMsg.recvMsg, hfirst, InSock.map]
  | false =>
    cases pending with
    | cons frame pending =>
      have hmore := recvMore_map f fails 1 [frame] pending
      rw [List.map_singleton] at hmore
      simp [ZmqMutiMsg.recvMutiMsg, ZmqMsg.recvMsg, hfirst, InSock.map, hmore]
    | nil =>
      cases queue with
      | nil => simp [ZmqMutiMsg.recvMutiMsg, ZmqMsg.recvMsg, hfirst, InSock.map]
      | cons m queue =>
        have hmore := recvMore_map f fails 1 [m.head] m.tail
        rw [List.map_singleton] at hmore
        simp [ZmqMutiMsg.recvMutiMsg, ZmqMsg.recvMsg, hfirst, InSock.map, Message.map, hmore]

theorem finish_map (s : OutSock F) (frame : F) :
    (s.map f).finish (f frame) = (s.finish frame).map f := by
  cases hopen : s.unfinished <;> simp [OutSock.finish, OutSock.map, Message.map, hopen]

theorem sendFrames_map (k : ℕ) (frame : F) (rest : List F) (s : OutSock F) :
    ZmqMutiMsg.sendFrames fails k (f frame) (rest.map f) (s.map f) =
      ((ZmqMutiMsg.sendFrames fails k frame rest s).1,
        (ZmqMutiMsg.sendFrames fails k frame rest s).2.map f) := by
  induction rest generalizing k frame s with
  | nil =>
    cases hfirst : fails k <;>
      simp [ZmqMutiMsg.sendFrames, ZmqMsg.sendMsg, hfirst, finish_map]
  | cons next rest ih =>
    cases hfirst : fails k with
    | true => simp [ZmqMutiMsg.sendFrames, ZmqMsg.sendMsg, hfirst]
    | false =>
      have hnext := ih (k+1) next { s with unfinished := s.unfinished ++ [frame] }
      simp only [ZmqMutiMsg.sendFrames, ZmqMsg.sendMsg, List.map_cons, hfirst,
        Bool.false_eq_true, if_false, if_true]
      rw [← hnext]
      simp [OutSock.map]

theorem sendMutiMsg_map (msgs : List F) (s : OutSock F) :
    ZmqMutiMsg.sendMutiMsg fails (msgs.map f) (s.map f) =
      (ZmqMutiMsg.sendMutiMsg fails msgs s).map fun out => (out.1, out.2.map f) := by
  cases msgs with
  | nil => rfl
  | cons frame rest =>
    simp only [ZmqMutiMsg.sendMutiMsg, List.map_cons, sendFrames_map, Except.map]

end Map

end OnlineJudge
