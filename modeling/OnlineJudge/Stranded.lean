import OnlineJudge.InFlight

/-! A worker that has left its loop keeps its socket, and the `DEALER` still hands it requests:
what becomes of these. -/
namespace OnlineJudge
open Transition

/-- The worker has returned from `run`, or is in a call that never returns. -/
def Phase.Gone (p : Phase) : Prop := p = .returned ∨ p = .blocked

theorem gone_not_waiting {p : Phase} (h : p.Gone) : p ≠ .waiting := by
  rintro rfl
  simp [Phase.Gone] at h

theorem gone_not_busy {p : Phase} (h : p.Gone) : ¬ p.Busy := by
  rcases h with rfl | rfl <;> simp [Phase.Busy, Phase.inTask]

section Stranded
variable {k n : ℕ} {identity : Fin k → Bytes} {host : Host} {json : Json.Codec}

/-- No step is made by a worker that is gone; a program that it started may still write. -/
theorem gone_worker {s t : Server n} {a : Action n} {i : Fin n}
    (h : Server.Steps host json s a t) (hgone : (s.workers i).phase.Gone)
    (hstray : a.isStray = false) : i ≠ a.worker := by
  intro hi
  subst hi
  by_cases hcall : a.isCall = true
  · exact gone_not_busy hgone (step_busy h ⟨rfl, hcall⟩)
  · obtain ⟨_, hcases⟩ := Server.step_cases h
    cases hcases with
    | decoded _ _ _ _ hphase _ => exact gone_not_waiting hgone hphase
    | undecoded _ _ _ _ hphase _ => exact gone_not_waiting hgone hphase
    | advanced | failed | answered | unsent => simp [Action.isCall] at hcall
    | strayed => simp [Action.isStray] at hstray

/-- The socket of worker `i`, with the worker gone, has at least these requests in it, and holds
this one. -/
structure Stuck (i : Fin n) (inbox : List (Message Frame)) (held : Option Held)
    (s : Network k n) : Prop where
  gone : (s.server.workers i).phase.Gone
  inbox : inbox <+: (s.reps i).inbox
  held : (s.reps i).held = held

theorem stuck_setRep {s : Network k n} {i j : Fin n} {inbox : List (Message Frame)}
    {held : Option Held} {rep : RepSock} (hs : Stuck i inbox held s)
    (hrep : j = i → (s.reps i).inbox <+: rep.inbox ∧ rep.held = (s.reps i).held) :
    Stuck i inbox held (s.setRep j rep) := by
  by_cases hj : j = i
  · subst hj
    have hself : (s.setRep j rep).reps j = rep := by simp [Network.setRep]
    obtain ⟨hinbox, hheld⟩ := hrep rfl
    refine ⟨hs.gone, ?_, ?_⟩
    · rw [hself]
      exact hs.inbox.trans hinbox
    · rw [hself, hheld]
      exact hs.held
  · have hother : (s.setRep j rep).reps i = s.reps i := by simp [Network.setRep, Ne.symm hj]
    refine ⟨hs.gone, ?_, ?_⟩
    · rw [hother]
      exact hs.inbox
    · rw [hother]
      exact hs.held

/-- A step of another worker with its own socket. -/
theorem stuck_server {s : Network k n} {server : Server n} {a : Action n} {i : Fin n}
    {inbox : List (Message Frame)} {held : Option Held} {rep : RepSock}
    (hs : Stuck i inbox held s) (hstep : Server.Steps host json s.server a server)
    (hstray : a.isStray = false) :
    Stuck i inbox held { s.setRep a.worker rep with server } := by
  have hi : i ≠ a.worker := gone_worker hstep hs.gone hstray
  have hrep : Stuck i inbox held (s.setRep a.worker rep) :=
    stuck_setRep hs (fun h => absurd h.symm hi)
  refine ⟨?_, hrep.inbox, hrep.held⟩
  have hsame := Server.step_other hstep hi
  simpa only [hsame] using hs.gone

theorem stuck_step (hne : ∀ c, identity c ≠ []) {s t : Network k n} {a : NetAction k n}
    {i : Fin n} {inbox : List (Message Frame)} {held : Option Held}
    (hcarried : Carried identity host json s) (hs : Stuck i inbox held s)
    (h : Network.Steps identity host json s a t) : Stuck i inbox held t := by
  cases a with
  | send c m =>
    obtain rfl : t = s.send c m := h
    exact ⟨hs.gone, hs.inbox, hs.held⟩
  | frontArrives c =>
    obtain ⟨m, rest, _, _, rfl⟩ := h
    exact ⟨hs.gone, hs.inbox, hs.held⟩
  | round =>
    obtain ⟨relay, _, _, rfl⟩ := h
    exact ⟨hs.gone, hs.inbox, hs.held⟩
  | dispatch j =>
    obtain ⟨m, rest, _, _, rfl⟩ := h
    have hrep : Stuck i inbox held
        (s.setRep j { s.reps j with inbox := (s.reps j).inbox ++ [m] }) := by
      apply stuck_setRep hs
      rintro rfl
      exact ⟨List.prefix_append _ _, rfl⟩
    exact ⟨hrep.gone, hrep.inbox, hrep.held⟩
  | discard j => exact absurd h (not_discards hne hcarried)
  | receive j tools =>
    obtain ⟨m, rest, h, server, _, _, hserver, rfl⟩ := h
    exact stuck_server hs hserver rfl
  | advance j =>
    obtain ⟨server, hserver, rfl⟩ := h
    have hsame : s.setRep j (s.reps j) = s := by simp [Network.setRep]
    have hstuck : Stuck i inbox held { s.setRep j (s.reps j) with server } :=
      stuck_server hs hserver rfl
    simpa only [hsame] using hstuck
  | reply j =>
    obtain ⟨h, ok, results, server, _, _, _, hserver, rfl⟩ := h
    exact stuck_server hs hserver rfl
  | backArrives j =>
    obtain ⟨m, rest, _, _, rfl⟩ := h
    have hrep : Stuck i inbox held (s.setRep j { s.reps j with outbox := rest }) := by
      apply stuck_setRep hs
      rintro rfl
      exact ⟨List.prefix_rfl, rfl⟩
    exact ⟨hrep.gone, hrep.inbox, hrep.held⟩
  | route =>
    obtain ⟨m, rest, _, _, rfl⟩ := h
    exact ⟨hs.gone, hs.inbox, hs.held⟩
  | stray j fs =>
    obtain ⟨server, hserver, rfl⟩ := h
    obtain ⟨_, rfl⟩ := Server.step_stray hserver
    exact ⟨hs.gone, hs.inbox, hs.held⟩

/-- Request `x` has not been answered, and nothing of it is in the socket of a worker other than
`i`. -/
structure Kept (i : Fin n) (x : ℕ) (s : Network k n) : Prop where
  undelivered : some x ∉ s.delivered.map Delivery.number
  elsewhere : ∀ j, j ≠ i → (s.reps j).copies x = 0

/-- What is at a worker is in one place already, and so nowhere else. -/
theorem kept_of_copies {s : Network k n} {i : Fin n} {x : ℕ}
    (hcopies : s.copies x = if x < s.requests.length then 1 else 0)
    (hrep : 0 < (s.reps i).copies x) : Kept i x s := by
  have hle : s.copies x ≤ 1 := by
    rw [hcopies]
    split_ifs <;> omega
  unfold Network.copies at hle
  have hsum := Finset.add_sum_erase Finset.univ (fun j => (s.reps j).copies x)
    (Finset.mem_univ i)
  constructor
  · intro hmem
    have hdelivered : 0 < (s.delivered.map Delivery.number).count (some x) :=
      List.count_pos_iff.mpr hmem
    omega
  · intro j hj
    have hothers : ∑ j ∈ Finset.univ.erase i, (s.reps j).copies x = 0 := by omega
    exact Finset.sum_eq_zero_iff.mp hothers j (Finset.mem_erase.mpr ⟨hj, Finset.mem_univ j⟩)

theorem copies_pos_of_mem {queue : List (Message Frame)} {m : Message Frame} (h : m ∈ queue) :
    0 < copies m.head.origin queue :=
  List.countP_pos_iff.mpr ⟨m, h, by simp⟩

/-- A request that is handed to a worker that is gone, or that it was at work on, is never
answered: it stays in the socket of that worker, and no other worker is given it. A process that
exits takes it along. -/
theorem gone_keeps (hid : Function.Injective identity) (hne : ∀ c, identity c ≠ [])
    {s t u : Network k n} {acts acts' : List (NetAction k n)} (hs : s.Started)
    (hrun : Run (CarriedSteps identity host json) s acts t)
    (hrun' : Run (CarriedSteps identity host json) t acts' u) (i : Fin n)
    (hgone : (t.server.workers i).phase.Gone) :
    (t.reps i).inbox <+: (u.reps i).inbox ∧ (u.reps i).held = (t.reps i).held ∧
      (∀ m ∈ (u.reps i).inbox, Kept i m.head.origin u) ∧
      ∀ h ∈ (u.reps i).held, Kept i h.envelope.head.origin u := by
  have ht := carried_run hid hne (started_carried hs) hrun
  have hboth := hrun'.invariant
    (fun v => Carried identity host json v ∧ Stuck i (t.reps i).inbox (t.reps i).held v)
    ⟨ht, hgone, List.prefix_rfl, rfl⟩
    (fun v a v' h hstep =>
      ⟨carried_step hid hne h.1 hstep, stuck_step hne h.1 h.2 hstep.2⟩)
  -- a request is in one place: one that is kept here has no copy elsewhere
  have hcopies := (conserved_run hid hne hs (hrun.append hrun')).2
  refine ⟨hboth.2.inbox, hboth.2.held, ?_, ?_⟩
  · intro m hm
    have hinbox := copies_pos_of_mem hm
    apply kept_of_copies (hcopies _)
    unfold RepSock.copies
    omega
  · intro h hh
    have hheld : (u.reps i).held = some h := hh
    apply kept_of_copies (hcopies _)
    simp only [RepSock.copies, hheld, Option.elim_some, Held.copies, if_true]
    omega

end Stranded

section TwoWorkers

/-- One client asks twice for Pascal, and both requests go to the first of two workers. -/
def idlePair : Network 1 2 where
  uplinks _ := []
  reps _ := {}
  server := { fs := slowFirstWorld.fs, workers := fun _ => {} }

theorem idlePair_started : idlePair.Started := ⟨rfl, rfl, rfl, rfl, ⟨rfl, fun _ => rfl⟩, rfl⟩

/-- Request `number` of the client as the relay carries it. -/
def pairWire (number : ℕ) : Message Frame :=
  (SentRequest.wire oneClient ⟨sole, pascalRequest⟩).stamp number

def Network.asked (s : Network 1 2) (number : ℕ) : Network 1 2 :=
  let sent := (s.send sole pascalRequest).frontArrives oneClient sole
    (pascalRequest.stamp number) []
  { sent with relay := sent.relay.next }.dispatch former (pairWire number) []

abbrev PairRun : Network 1 2 → List (NetAction 1 2) → Network 1 2 → Prop :=
  Run (CarriedSteps oneClient .standard pascalCodec)

def pairReceived : Network 1 2 :=
  let asked := idlePair.asked 0
  asked.receive former pascalHeld []
    (asked.server.decode former (some pascalConf.message) (.ofRuns slowFirst) pascalConf)

def pairRefused : Network 1 2 :=
  { pairReceived with
    server := pairReceived.server.put former (.replying false {})
      ((pairReceived.server.world former).built pascalConf.runId) }

/-- The first worker has replied that it cannot judge Pascal, and has left its loop. -/
def pairReplied : Network 1 2 :=
  pairRefused.reply former (pascalHeld.reply systemError)
    (pairRefused.server.answer pascalCodec former false {})

def pairDelivered : Network 1 2 :=
  let back := pairReplied.backArrives former (pascalHeld.reply systemError) []
  { back with relay := back.relay.next }.route oneClient (pascalHeld.reply systemError) []

/-- The steps that bring a request to the first worker. -/
def asking : List (NetAction 1 2) :=
  [.send sole pascalRequest, .frontArrives sole, .round, .dispatch former]

theorem pairFirst_run : PairRun idlePair asking (idlePair.asked 0) := by
  refine .cons ⟨pascalRequest_fromReq, rfl⟩ (.cons ⟨trivial, _, _, rfl, rfl, rfl⟩
    (.cons ?_ (.single ⟨trivial, _, _, rfl, rfl, rfl⟩)))
  exact ⟨trivial, _, rfl, round_working ⟨rfl, rfl, rfl, rfl⟩, rfl⟩

theorem pairReceived_phase :
    (pairReceived.server.workers former).phase = .decoded pascalConf (.ofRuns slowFirst) := by
  simp [pairReceived, Network.receive, Server.decode]

theorem pairWork_run : PairRun (idlePair.asked 0)
    [.receive former (.ofRuns slowFirst), .advance former, .reply former] pairReplied := by
  have hreceive : CarriedSteps oneClient .standard pascalCodec (idlePair.asked 0)
      (.receive former (.ofRuns slowFirst)) pairReceived :=
    ⟨trivial, pairWire 0, [], pascalHeld, _, rfl, rfl,
      Server.step_receive rfl rfl parseData_pascal, rfl⟩
  have hbuild : Buildable .standard pairReceived.server.fs pascalConf.runId :=
    Or.inr ⟨rfl, Or.inl rfl⟩
  have hadvance : CarriedSteps oneClient .standard pascalCodec pairReceived (.advance former)
      pairRefused :=
    ⟨trivial, _, refuse_advance rfl pairReceived_phase hbuild, rfl⟩
  have hphase : (pairRefused.server.workers former).phase = .replying false {} := by
    simp [pairRefused]
  have hreply : CarriedSteps oneClient .standard pascalCodec pairRefused (.reply former)
      pairReplied :=
    ⟨trivial, pascalHeld, false, {}, _, rfl, rfl, hphase, Server.step_reply rfl hphase, rfl⟩
  exact .cons hreceive (.cons hadvance (.single hreply))

theorem pairHome_run : PairRun pairReplied [.backArrives former, .round, .route] pairDelivered := by
  refine .cons ⟨trivial, _, _, rfl, rfl, rfl⟩ (.cons ?_ (.single ⟨trivial, _, _, rfl, rfl, rfl⟩))
  exact ⟨trivial, _, rfl, round_working ⟨rfl, rfl, rfl, rfl⟩, rfl⟩

theorem pairSecond_run : PairRun pairDelivered asking (pairDelivered.asked 1) := by
  refine .cons ⟨pascalRequest_fromReq, rfl⟩ (.cons ⟨trivial, _, _, rfl, rfl, rfl⟩
    (.cons ?_ (.single ⟨trivial, _, _, rfl, rfl, rfl⟩)))
  exact ⟨trivial, _, rfl, round_working ⟨rfl, rfl, rfl, rfl⟩, rfl⟩

theorem pairDelivered_gone : (pairDelivered.server.workers former).phase.Gone := by
  left
  simp [pairDelivered, pairReplied, Network.route, Network.backArrives, Network.setRep,
    Network.reply, Server.answer]

theorem gone_keeps_pair :
    ((pairDelivered.asked 1).reps former).inbox = [pairWire 1] ∧
    (pairDelivered.reps former).inbox <+: ((pairDelivered.asked 1).reps former).inbox ∧
      ((pairDelivered.asked 1).reps former).held = (pairDelivered.reps former).held ∧
      (∀ m ∈ ((pairDelivered.asked 1).reps former).inbox,
        Kept former m.head.origin (pairDelivered.asked 1)) ∧
      ∀ h ∈ ((pairDelivered.asked 1).reps former).held,
        Kept former h.envelope.head.origin (pairDelivered.asked 1) :=
  ⟨rfl, gone_keeps oneClient_injective oneClient_ne idlePair_started
    (pairFirst_run.append (pairWork_run.append pairHome_run)) pairSecond_run former
    pairDelivered_gone⟩

end TwoWorkers

end OnlineJudge
