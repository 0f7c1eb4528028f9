import OnlineJudge.Transition
import OnlineJudge.Worker

/-! The server process: any number of worker threads in the loop of `JudgeWorker::run`, over
one file system, with their steps in any order. -/
namespace OnlineJudge

structure WorkerState where
  phase : Phase := .waiting
  ledger : Ledger := {}
  received : List Bytes := []
  replies : List Bytes := []

structure Server (n : ℕ) where
  fs : FileSystem
  exited : Bool := false
  workers : Fin n → WorkerState

/-- The round of the loop of `run`, step by step: `recvMsg` with its message, or `none` where
it fails, and the programs of the request; a call of `processTask`; and `sendMsg`. -/
inductive Action (n : ℕ)
  | receive (i : Fin n) (msg : Option Bytes) (tools : Tools)
  | advance (i : Fin n)
  | reply (i : Fin n) (sent : Bool)
  /-- A program started for worker `i` changes files, open ones apart, outside of its work
  directory or after its end. -/
  | stray (i : Fin n) (fs : FileSystem)

variable {n : ℕ}

namespace Action

def worker : Action n → Fin n
  | receive i _ _ => i
  | advance i => i
  | reply i _ => i
  | stray i _ => i

def isReceive : Action n → Bool
  | receive _ _ _ => true
  | _ => false

/-- A step of the server on the request that the worker is in. -/
def isCall : Action n → Bool
  | advance _ => true
  | reply _ _ => true
  | _ => false

def isStray : Action n → Bool
  | stray _ _ => true
  | _ => false

end Action

namespace Server

def Started (s : Server n) : Prop := s.exited = false ∧ ∀ i, s.workers i = {}

def world (s : Server n) (i : Fin n) : World := { toLedger := (s.workers i).ledger, fs := s.fs }

def modify (s : Server n) (i : Fin n) (f : WorkerState → WorkerState) : Server n :=
  { s with workers := Function.update s.workers i (f (s.workers i)) }

/-- The call of worker `i` has returned. -/
def put (s : Server n) (i : Fin n) (p : Phase) (w : World) : Server n :=
  { s.modify i (fun x => { x with phase := p, ledger := w.toLedger }) with fs := w.fs }

/-- The call of worker `i` does not return. -/
def abort (s : Server n) (i : Fin n) (e : Abort) : Server n :=
  if e.endsProcess then { s with exited := true }
  else s.modify i (fun x => { x with phase := .blocked })

def decode (s : Server n) (i : Fin n) (msg : Option Bytes) (tools : Tools)
    (conf : RunConfigure) : Server n :=
  s.modify i (fun x =>
    { x with phase := .decoded conf tools, received := x.received ++ msg.toList })

/-- The results as they are sent: `sendError` overwrites the verdict. -/
def replied (ok : Bool) (results : Results) : Results :=
  if ok then results else { results with judgeResult := .kSE }

/-- After `sendError` the thread returns from `run`. -/
def answer (json : Json.Codec) (s : Server n) (i : Fin n) (ok : Bool) (results : Results) :
    Server n :=
  s.modify i (fun x =>
    { x with
      phase := if ok then .waiting else .returned
      replies := x.replies ++ [wrapData json (replied ok results)] })

/-- One step of one thread, where it stands at that point of its loop. The message of a
receive that fails has no data. -/
def step (host : Host) (json : Json.Codec) (s : Server n) (a : Action n) : Option (Server n) :=
  if s.exited then none
  else
    match a with
    | .receive i msg tools =>
      match (s.workers i).phase with
      | .waiting =>
        match parseData json (msg.getD []) with
        | .ok conf => some (s.decode i msg tools conf)
        | .error e => some (s.abort i e)
      | _ => none
    | .advance i =>
      if (s.workers i).phase.inTask then
        match advance host (s.workers i).phase (s.world i) with
        | .ok (p, w) => some (s.put i p w)
        | .error e => some (s.abort i e)
      else none
    | .reply i sent =>
      match (s.workers i).phase with
      | .replying ok results =>
        if sent then some (s.answer json i ok results)
        else some (s.modify i (fun x => { x with phase := .returned }))
      | _ => none
    | .stray _ fs => some { s with fs }

def Steps (host : Host) (json : Json.Codec) (s : Server n) (a : Action n) (t : Server n) :
    Prop :=
  s.step host json a = some t

@[simp] theorem modify_self (s : Server n) (i : Fin n) (f : WorkerState → WorkerState) :
    (s.modify i f).workers i = f (s.workers i) := by
  simp [modify]

theorem modify_of_ne (s : Server n) {i j : Fin n} (f : WorkerState → WorkerState) (h : j ≠ i) :
    (s.modify i f).workers j = s.workers j := by
  simp [modify, h]

@[simp] theorem modify_exited (s : Server n) (i : Fin n) (f : WorkerState → WorkerState) :
    (s.modify i f).exited = s.exited := rfl

@[simp] theorem modify_fs (s : Server n) (i : Fin n) (f : WorkerState → WorkerState) :
    (s.modify i f).fs = s.fs := rfl

@[simp] theorem put_self (s : Server n) (i : Fin n) (p : Phase) (w : World) :
    (s.put i p w).workers i = { s.workers i with phase := p, ledger := w.toLedger } := by
  simp [put, modify]

theorem put_of_ne (s : Server n) {i j : Fin n} (p : Phase) (w : World) (h : j ≠ i) :
    (s.put i p w).workers j = s.workers j := by
  simp [put, modify, h]

@[simp] theorem put_exited (s : Server n) (i : Fin n) (p : Phase) (w : World) :
    (s.put i p w).exited = s.exited := rfl

@[simp] theorem put_fs (s : Server n) (i : Fin n) (p : Phase) (w : World) :
    (s.put i p w).fs = w.fs := rfl

@[simp] theorem put_world (s : Server n) (i : Fin n) (p : Phase) (w : World) :
    (s.put i p w).world i = w := by
  simp [world]

@[simp] theorem abort_fs (s : Server n) (i : Fin n) (e : Abort) : (s.abort i e).fs = s.fs := by
  unfold abort
  split_ifs <;> rfl

section Stepped
variable (host : Host) (json : Json.Codec) (s : Server n)

inductive Stepped : Action n → Server n → Prop
  | decoded (i : Fin n) (msg : Option Bytes) (tools : Tools) (conf : RunConfigure)
      (hphase : (s.workers i).phase = .waiting)
      (hparse : parseData json (msg.getD []) = .ok conf) :
      Stepped (.receive i msg tools) (s.decode i msg tools conf)
  | undecoded (i : Fin n) (msg : Option Bytes) (tools : Tools) (e : Abort)
      (hphase : (s.workers i).phase = .waiting)
      (hparse : parseData json (msg.getD []) = .error e) :
      Stepped (.receive i msg tools) (s.abort i e)
  | advanced (i : Fin n) (p : Phase) (w : World) (hphase : (s.workers i).phase.inTask = true)
      (h : OnlineJudge.advance host (s.workers i).phase (s.world i) = .ok (p, w)) :
      Stepped (.advance i) (s.put i p w)
  | failed (i : Fin n) (e : Abort) (hphase : (s.workers i).phase.inTask = true)
      (h : OnlineJudge.advance host (s.workers i).phase (s.world i) = .error e) :
      Stepped (.advance i) (s.abort i e)
  | answered (i : Fin n) (ok : Bool) (results : Results)
      (hphase : (s.workers i).phase = .replying ok results) :
      Stepped (.reply i true) (s.answer json i ok results)
  | unsent (i : Fin n) (ok : Bool) (results : Results)
      (hphase : (s.workers i).phase = .replying ok results) :
      Stepped (.reply i false) (s.modify i (fun x => { x with phase := .returned }))
  | strayed (i : Fin n) (fs : FileSystem) : Stepped (.stray i fs) { s with fs }

variable {host json s}

theorem step_cases {a : Action n} {t : Server n} (h : Steps host json s a t) :
    s.exited = false ∧ Stepped host json s a t := by
  -- once the process has exited no worker goes on
  unfold Steps step at h
  split_ifs at h with hexited
  refine ⟨by simpa using hexited, ?_⟩
  cases a with
  | receive i msg tools =>
    cases hphase : (s.workers i).phase with
    | waiting =>
      cases hparse : parseData json (msg.getD []) with
      | ok conf =>
        simp only [hphase, hparse, Option.some.injEq] at h
        rw [← h]
        exact .decoded i msg tools conf hphase hparse
      | error e =>
        simp only [hphase, hparse, Option.some.injEq] at h
        rw [← h]
        exact .undecoded i msg tools e hphase hparse
    | _ => simp [hphase] at h
  | advance i =>
    cases hphase : (s.workers i).phase.inTask with
    | false => simp [hphase] at h
    | true =>
      cases hadvance : OnlineJudge.advance host (s.workers i).phase (s.world i) with
      | ok out =>
        simp only [hphase, if_true, hadvance, Option.some.injEq] at h
        rw [← h]
        exact .advanced i _ _ hphase hadvance
      | error e =>
        simp only [hphase, if_true, hadvance, Option.some.injEq] at h
        rw [← h]
        exact .failed i e hphase hadvance
  | reply i sent =>
    cases hphase : (s.workers i).phase with
    | replying ok results =>
      cases sent with
      | true =>
        simp only [hphase, if_true, Option.some.injEq] at h
        rw [← h]
        exact .answered i ok results hphase
      | false =>
        simp only [hphase, Bool.false_eq_true, if_false, Option.some.injEq] at h
        rw [← h]
        exact .unsent i ok results hphase
    | _ => simp [hphase] at h
  | stray i fs =>
    obtain rfl := Option.some.inj h
    exact .strayed i fs

/-- What a program does to the files is no step of a worker. -/
theorem step_stray {i : Fin n} {fs : FileSystem} {t : Server n}
    (h : Steps host json s (.stray i fs) t) : s.exited = false ∧ t = { s with fs } := by
  obtain ⟨halive, hcases⟩ := step_cases h
  cases hcases with
  | strayed => exact ⟨halive, rfl⟩

theorem abort_of_ne (s : Server n) {i j : Fin n} (e : Abort) (h : j ≠ i) :
    (s.abort i e).workers j = s.workers j := by
  unfold abort
  split_ifs
  · rfl
  · exact modify_of_ne s _ h

theorem step_other {a : Action n} {t : Server n} (h : Steps host json s a t) {j : Fin n}
    (hj : j ≠ a.worker) : t.workers j = s.workers j := by
  obtain ⟨_, hstep⟩ := step_cases h
  cases hstep with
  | decoded i msg tools conf => exact modify_of_ne s _ hj
  | undecoded i msg tools e => exact abort_of_ne s e hj
  | advanced i p w => exact put_of_ne s p w hj
  | failed i e => exact abort_of_ne s e hj
  | answered i ok results => exact modify_of_ne s _ hj
  | unsent i ok results => exact modify_of_ne s _ hj
  | strayed i fs => rfl

/-- What holds of a fresh worker, and is kept by its own steps. -/
theorem worker_invariant {ok : Server n → Action n → Prop} {acts : List (Action n)}
    {t : Server n} (hrun : Transition.Run (Transition.When ok (Steps host json)) s acts t)
    (I : WorkerState → Prop) (hstart : s.Started) (hfresh : I {})
    (hkeep : ∀ s a t, I (s.workers a.worker) → Transition.When ok (Steps host json) s a t →
      I (t.workers a.worker)) (i : Fin n) : I (t.workers i) := by
  refine hrun.member_invariant Server.workers Action.worker I ?_ ?_ hkeep i
  · intro j
    rw [hstart.2 j]
    exact hfresh
  · intro s a t j hstep hj
    exact step_other hstep.2 hj

theorem step_advance {i : Fin n} {p : Phase} {w : World} (hexited : s.exited = false)
    (hphase : (s.workers i).phase.inTask = true)
    (h : OnlineJudge.advance host (s.workers i).phase (s.world i) = .ok (p, w)) :
    Steps host json s (.advance i) (s.put i p w) := by
  simp [Steps, step, hexited, hphase, h]

theorem step_receive {i : Fin n} {msg : Bytes} {tools : Tools} {conf : RunConfigure}
    (hexited : s.exited = false) (hphase : (s.workers i).phase = .waiting)
    (hparse : parseData json msg = .ok conf) :
    Steps host json s (.receive i (some msg) tools) (s.decode i (some msg) tools conf) := by
  simp [Steps, step, hexited, hphase, hparse]

theorem step_reply {i : Fin n} {ok : Bool} {results : Results} (hexited : s.exited = false)
    (hphase : (s.workers i).phase = .replying ok results) :
    Steps host json s (.reply i true) (s.answer json i ok results) := by
  simp [Steps, step, hexited, hphase]

end Stepped

end Server

end OnlineJudge
