import OnlineJudge.RebootServer

/-! `RebootServer::run`: the loop that waits for clients and is meant to check the judge server
when the time-out of `zmq_poll` has passed without one. -/
namespace OnlineJudge

namespace RebootServer

/-- What `zmq_poll` returns, with the outcome of `recvMsg` where it is called. -/
inductive Poll
  /-- A negative number. -/
  | failed
  /-- Zero. -/
  | timedOut
  /-- A positive number, with `ZMQ_POLLIN` set. -/
  | readable (msg : Option Bytes)
  /-- A positive number, without it. -/
  | unreadable
  deriving DecidableEq

def Poll.received : Poll → Bool
  | readable (some _) => true
  | _ => false

/-- One iteration of the loop, with what a check finds if there is one in it. -/
structure Round where
  poll : Poll
  file : Option Bytes
  reply : Option Bytes
  deriving DecidableEq

inductive Effect
  /-- `checkServer` is called. -/
  | checkServer
  /-- `execCmd` on behalf of a client. -/
  | execCmd (cmd : String)
  deriving DecidableEq

/-- The body of the loop: its effects, and whether it returns. The `else` of the source belongs
to the test of `ZMQ_POLLIN`, and a receive that fails is only printed. -/
def iteration (json : Json.Codec) (round : Round) : List Effect × Call Unit :=
  match round.poll with
  | .failed => ([], .error (.terminate "re >= 0"))
  | .timedOut => ([], .ok ())
  | .readable _ => ([.execCmd rebootScript], .ok ())
  | .unreadable =>
    ([.checkServer], do
      let _ ← checkServer json round.file round.reply
      return ())

/-- The iterations that are begun on these outcomes, each with its effects. -/
def run (json : Json.Codec) : List Round → List (Round × List Effect)
  | [] => []
  | round :: rest =>
    let (effects, result) := iteration json round
    (round, effects) ::
      match result with
      | .ok _ => run json rest
      | .error _ => []

/-- One check for a time-out and none without, one reboot for a message and none without. -/
structure Scheduled (round : Round) (effects : List Effect) : Prop where
  checks : effects.count .checkServer = if round.poll = .timedOut then 1 else 0
  reboots : effects.count (.execCmd rebootScript) = if round.poll.received then 1 else 0

section Loop
variable (json : Json.Codec)

theorem iteration_received {round : Round} (h : round.poll.received = true) :
    iteration json round = ([.execCmd rebootScript], .ok ()) := by
  unfold iteration
  cases hpoll : round.poll with
  | readable msg => rfl
  | failed | timedOut | unreadable => simp [hpoll, Poll.received] at h

theorem iteration_scheduled_iff {round : Round} (hpoll : round.poll ≠ .failed) :
    Scheduled round (iteration json round).1 ↔ round.poll.received = true := by
  constructor
  · intro ⟨hchecks, hreboots⟩
    unfold iteration at hchecks hreboots
    cases hround : round.poll with
    | failed => exact absurd hround hpoll
    | timedOut => simp [hround] at hchecks
    | unreadable => simp [hround] at hchecks
    | readable msg =>
      cases msg with
      | some data => rfl
      -- the script is run although nothing was received
      | none => simp [hround, Poll.received] at hreboots
  · intro h
    have hne : round.poll ≠ .timedOut := by
      intro htime
      simp [htime, Poll.received] at h
    rw [iteration_received json h]
    constructor
    · simp [hne]
    · simp [h]

/-- The loop keeps to the schedule over a whole history exactly when every iteration of it
receives a message: a time-out is never followed by a check, a wake-up without a message is, and
a receive that fails is followed by a reboot. -/
theorem run_scheduled_iff (rounds : List Round) (hpoll : ∀ r ∈ rounds, r.poll ≠ .failed) :
    (∀ x ∈ run json rounds, Scheduled x.1 x.2) ↔ ∀ r ∈ rounds, r.poll.received = true := by
  -- by induction on the rounds: the first one that receives nothing is the failing one
  induction rounds with
  | nil => simp [run]
  | cons round rest ih =>
    have hfirst := iteration_scheduled_iff json (hpoll round (by simp))
    have hrest := ih fun r hr => hpoll r (by simp [hr])
    constructor
    · intro h
      have hreceived := hfirst.mp (h (round, (iteration json round).1) (by simp [run]))
      have hgood := hrest.mp fun x hx => h x (by
        simpa [run, iteration_received json hreceived] using Or.inr hx)
      intro r hr
      rcases List.mem_cons.mp hr with hr | hr
      · rw [hr]
        exact hreceived
      · exact hgood r hr
    · intro h
      have hreceived := h round (by simp)
      have hgood := hrest.mpr fun r hr => h r (by simp [hr])
      intro x hx
      simp only [run, iteration_received json hreceived, List.mem_cons] at hx
      rcases hx with hx | hx
      · rw [hx]
        simpa [iteration_received json hreceived] using hfirst.mpr hreceived
      · exact hgood x hx

end Loop

section History

/-- Two clients, a time-out, and a third client. -/
def threeClients : List Round :=
  [⟨.readable (some (str "reboot")), none, none⟩, ⟨.readable (some []), none, none⟩,
    ⟨.timedOut, none, none⟩, ⟨.readable (some (str "reboot")), none, none⟩]

theorem run_scheduled_iff_threeClients :
    (run userCodec threeClients).map Prod.snd =
      [[.execCmd rebootScript], [.execCmd rebootScript], [], [.execCmd rebootScript]] ∧
    ((∀ x ∈ run userCodec threeClients, Scheduled x.1 x.2) ↔
      ∀ r ∈ threeClients, r.poll.received = true) :=
  ⟨rfl, run_scheduled_iff userCodec threeClients (by simp [threeClients])⟩

/-- A time-out passes without a check. -/
theorem not_run_scheduled :
    ¬ ∀ (json : Json.Codec) (rounds : List Round), (∀ r ∈ rounds, r.poll ≠ .failed) →
      ∀ x ∈ run json rounds, Scheduled x.1 x.2 := by
  intro hclaim
  have hround := hclaim userCodec [⟨.timedOut, none, none⟩] (by simp)
    (⟨.timedOut, none, none⟩, []) (by simp [run, iteration])
  have hchecks := hround.checks
  simp at hchecks

end History

end RebootServer

end OnlineJudge
