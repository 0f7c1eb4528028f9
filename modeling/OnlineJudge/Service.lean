import OnlineJudge.Transition

/-! A service with clients of which each waits for its answer before it asks again. -/
namespace Service

/-- What passes between a client and the service. -/
inductive Event (ι Q A : Type*)
  | ask (c : ι) (question : Q)
  | answer (c : ι) (answer : A)

variable {ι Q A : Type*} [DecidableEq ι]

/-- The state is the question that each client has open. -/
def Steps (answers : Q → A → Prop) (s : ι → Option Q) (e : Event ι Q A) (t : ι → Option Q) :
    Prop :=
  match e with
  | .ask c question => s c = none ∧ t = Function.update s c (some question)
  | .answer c answer =>
    ∃ question, s c = some question ∧ answers question answer ∧ t = Function.update s c none

end Service
