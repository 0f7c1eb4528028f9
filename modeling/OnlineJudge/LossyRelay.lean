import OnlineJudge.Replies

/-! A relay whose socket operations can fail: where it drops whole messages, some requests stay
without a reply, but no reply goes astray and none comes twice. -/
namespace OnlineJudge
open Transition

/-- A step of the network, or a round of the relay with outcomes of its own. -/
inductive LossyAction (k n : ℕ)
  | step (a : NetAction k n)
  | round (o : Outcomes)

section Lossy
variable {k n : ℕ} (identity : Fin k → Bytes) (host : Host) (json : Json.Codec)

/-- In a round, all receives of a message work, and its sends work or fail from the first. -/
def LossySteps (s : Network k n) (a : LossyAction k n) (t : Network k n) : Prop :=
  match a with
  | .step a => Network.Steps identity host json s a t
  | .round o => o.Fine s.relay ∧ ∃ relay, s.server.exited = false ∧
      JudgeServer.round o s.relay = .ok relay ∧ t = { s with relay }

variable {identity host json}

theorem fine_round {o : Outcomes} {s relay : Relay Frame} (hs : s.Clean) (hfine : o.Fine s)
    (h : JudgeServer.round o s = .ok relay) :
    relay.Clean ∧
      (relay.back.output.sent ++ relay.front.input.queue).Sublist
        (s.back.output.sent ++ s.front.input.queue) ∧
      (relay.front.output.sent ++ relay.back.input.queue).Sublist
        (s.front.output.sent ++ s.back.input.queue) := by
  obtain ⟨relay', hround, hclean, _, _, hforth, hback⟩ := round_fine hs hfine
  obtain rfl : relay' = relay := call_ok_unique hround h
  exact ⟨hclean, hforth, hback⟩

theorem routed_fine {o : Outcomes} {s : Network k n} {relay : Relay Frame}
    (hs : Routed identity host json s) (hfine : o.Fine s.relay)
    (h : JudgeServer.round o s.relay = .ok relay) :
    Routed identity host json { s with relay } := by
  obtain ⟨hclean, hforth, hback⟩ := fine_round hs.clean hfine h
  -- whatever is on one side of the relay was on one of its sides before
  have hrequest : ∀ m ∈ relay.back.output.sent ++ relay.front.input.queue,
      IsRequest identity s.requests m := by
    intro m hm
    rcases List.mem_append.mp (hforth.subset hm) with hm | hm
    · exact hs.backOut m hm
    · exact hs.frontIn m hm
  have hreply : ∀ m ∈ relay.front.output.sent ++ relay.back.input.queue,
      IsReply identity host json s.requests s.server.workers m := by
    intro m hm
    rcases List.mem_append.mp (hback.subset hm) with hm | hm
    · exact hs.frontOut m hm
    · exact hs.backIn m hm
  exact ⟨hclean, hs.uplinks, fun m hm => hrequest m (List.mem_append_right _ hm),
    fun m hm => hrequest m (List.mem_append_left _ hm), hs.reps,
    fun m hm => hreply m (List.mem_append_right _ hm),
    fun m hm => hreply m (List.mem_append_left _ hm), hs.delivered⟩

theorem copies_fine {o : Outcomes} {s : Network k n} {relay : Relay Frame}
    (hs : s.relay.Clean) (hfine : o.Fine s.relay) (h : JudgeServer.round o s.relay = .ok relay)
    (x : ℕ) : ({ s with relay } : Network k n).copies x ≤ s.copies x := by
  obtain ⟨_, hforth, hback⟩ := fine_round hs hfine h
  have hforthle : copies x (relay.back.output.sent ++ relay.front.input.queue) ≤
      copies x (s.relay.back.output.sent ++ s.relay.front.input.queue) := hforth.countP_le
  have hbackle : copies x (relay.front.output.sent ++ relay.back.input.queue) ≤
      copies x (s.relay.front.output.sent ++ s.relay.back.input.queue) := hback.countP_le
  rw [copies_append, copies_append] at hforthle hbackle
  simp only [Network.copies]
  omega

/-- What holds while the relay drops messages. -/
theorem lossy_step (hid : Function.Injective identity) {s t : Network k n} {a : LossyAction k n}
    (hs : Routed identity host json s ∧ s.Single) (h : LossySteps identity host json s a t) :
    Routed identity host json t ∧ t.Single := by
  obtain ⟨hrouted, hsingle⟩ := hs
  cases a with
  | step a => exact ⟨routed_step hid hrouted h, single_step hrouted hsingle h⟩
  | round o =>
    obtain ⟨hfine, relay, _, hround, rfl⟩ := h
    refine ⟨routed_fine hrouted hfine hround, ?_⟩
    intro x
    exact (copies_fine hrouted.clean hfine hround x).trans (hsingle x)

/-- Also when the relay drops messages, a client is given only what some worker made of a request
of that same client, and no request is answered more than once. -/
theorem replies_routed_lossy (hid : Function.Injective identity) {s t : Network k n}
    {acts : List (LossyAction k n)} (hs : s.Started)
    (hrun : Run (LossySteps identity host json) s acts t) :
    (∀ d ∈ t.delivered, IsDelivery host json t.requests t.server.workers d) ∧
      ∀ x, (t.delivered.map Delivery.number).count (some x) ≤ 1 := by
  obtain ⟨hrouted, hsingle⟩ := hrun.invariant
    (fun s => Routed identity host json s ∧ s.Single) ⟨started_routed hs, started_single hs⟩
    (fun _ _ _ h hstep => lossy_step hid h hstep)
  refine ⟨hrouted.delivered, ?_⟩
  intro x
  have hx := hsingle x
  have hpart : (t.delivered.map Delivery.number).count (some x) ≤ t.copies x :=
    Nat.le_add_left _ _
  split_ifs at hx <;> omega

end Lossy

section OneClient

/-- The back socket takes no frame. -/
def backClosed : Outcomes where
  frontRecv _ := false
  backSend _ := true
  backRecv _ := false
  frontSend _ := false

/-- The request is on its way to the relay. -/
def pascalArrived : Network 1 1 :=
  (freshNetwork.send sole pascalRequest).frontArrives oneClient sole (pascalRequest.stamp 0) []

/-- It is received and dropped. -/
def pascalDropped : Network 1 1 := { pascalArrived with relay := {} }

theorem pascalDropped_round :
    LossySteps oneClient .standard pascalCodec pascalArrived (.round backClosed)
      pascalDropped := by
  have hfine : backClosed.Fine pascalArrived.relay := by
    constructor
    · intro m _
      exact ⟨fun _ _ => rfl, Or.inl rfl⟩
    · intro m hm
      have hempty : pascalArrived.relay.back.input.queue.head? = none := rfl
      simp [hempty] at hm
  exact ⟨hfine, _, rfl, rfl, rfl⟩

theorem replies_routed_lossy_dropped :
    (∀ d ∈ pascalDropped.delivered, IsDelivery .standard pascalCodec pascalDropped.requests
      pascalDropped.server.workers d) ∧
      ∀ x, (pascalDropped.delivered.map Delivery.number).count (some x) ≤ 1 := by
  have hstart : freshNetwork.Started :=
    ⟨rfl, rfl, rfl, rfl, freshServer_started, rfl⟩
  have hsend : LossySteps oneClient .standard pascalCodec freshNetwork
      (.step (.send sole pascalRequest)) (freshNetwork.send sole pascalRequest) := rfl
  have harrive : LossySteps oneClient .standard pascalCodec (freshNetwork.send sole pascalRequest)
      (.step (.frontArrives sole)) pascalArrived := ⟨_, _, rfl, rfl, rfl⟩
  exact replies_routed_lossy (Function.injective_of_subsingleton _) hstart
    (.cons hsend (.cons harrive (.single pascalDropped_round)))

end OneClient

end OnlineJudge
