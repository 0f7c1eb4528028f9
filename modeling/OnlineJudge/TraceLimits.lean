import OnlineJudge.Accounting

/-! The limits while the program runs: `TraceLoop` looks at the `rusage` of an event only when it
returns, so what it resumes does not depend on the resources. -/
namespace OnlineJudge
open Posix

section Limits
variable (pagesize : ℤ) (cond : ExecuteCondtion) (limit : CallLimit)

/-- The `rusage` already shows more than one of the limits. -/
def Exceeds (resource : Rusage) : Prop :=
  (cond.timeLimit.toNat : ℤ) < exactTime resource ∨
    (cond.memoryLimit.toNat : ℤ) < exactMemory pagesize cond.memoryAdd resource

/-- `TraceLoop` on the first `n` events of a stream. -/
def streamRun (inSyscall : Bool) (stream : ℕ → WaitEvent) (n : ℕ) : TraceRun :=
  traceLoop pagesize cond limit inSyscall ((List.range n).map (fun i => .event (stream i)))

/-- Every event up to the `i`-th is a stop that `TraceLoop` lets pass. -/
def AllowedTo (inSyscall : Bool) (stream : ℕ → WaitEvent) (i : ℕ) : Prop :=
  ∀ j ≤ i, (stream j).allowed limit (inSyscall || 0 < j) = true

theorem streamRun_events (inSyscall : Bool) (stream : ℕ → WaitEvent) (n : ℕ) :
    streamRun pagesize cond limit inSyscall stream (n+1) =
      traceLoop pagesize cond limit inSyscall
        (.event (stream 0) :: (List.range n).map (fun i => .event (stream (i+1)))) := by
  unfold streamRun
  rw [List.range_succ_eq_map, List.map_cons, List.map_map]
  rfl

theorem streamRun_resume {inSyscall : Bool} {stream : ℕ → WaitEvent}
    (h : (stream 0).allowed limit inSyscall = true) (n : ℕ) :
    streamRun pagesize cond limit inSyscall stream (n+1) =
      (streamRun pagesize cond limit true (fun i => stream (i+1)) n).cons (stream 0) := by
  have hstep := (traceStep_resume_iff_allowed pagesize cond limit inSyscall (stream 0)).mpr h
  rw [streamRun_events]
  simp only [traceLoop, hstep, streamRun]

/-- An event that is not allowed ends the run, and nothing is resumed. -/
theorem streamRun_refuse {inSyscall : Bool} {stream : ℕ → WaitEvent}
    (h : ¬ (stream 0).allowed limit inSyscall = true) (n i : ℕ) (e : WaitEvent) :
    (streamRun pagesize cond limit inSyscall stream (n+1)).requests[i]? ≠
      some (e, .ptraceSyscall) := by
  rw [← traceStep_resume_iff_allowed pagesize cond] at h
  rw [streamRun_events]
  cases hstep : traceStep pagesize cond limit inSyscall (stream 0) with
  | resume => exact absurd hstep h
  | kill results => cases i <;> simp [traceLoop, hstep]
  | finish results => simp [traceLoop, hstep]

theorem allowedTo_zero (inSyscall : Bool) (stream : ℕ → WaitEvent) :
    AllowedTo limit inSyscall stream 0 ↔ (stream 0).allowed limit inSyscall = true := by
  simp [AllowedTo]

theorem allowedTo_succ (inSyscall : Bool) (stream : ℕ → WaitEvent) (i : ℕ) :
    AllowedTo limit inSyscall stream (i+1) ↔
      (stream 0).allowed limit inSyscall = true ∧
        AllowedTo limit true (fun i => stream (i+1)) i := by
  constructor
  · intro h
    refine ⟨by simpa using h 0 (by omega), fun j hj => ?_⟩
    simpa using h (j+1) (by omega)
  · rintro ⟨hfirst, hrest⟩ j hj
    cases j with
    | zero => simpa using hfirst
    | succ j => simpa using hrest j (by omega)

/-- `TraceLoop` resumes the `i`-th event exactly when it and all events before it are allowed,
whatever their resources. -/
theorem streamRun_resumes_iff (inSyscall : Bool) (stream : ℕ → WaitEvent) (n i : ℕ)
    (e : WaitEvent) :
    (streamRun pagesize cond limit inSyscall stream n).requests[i]? = some (e, .ptraceSyscall) ↔
      i < n ∧ stream i = e ∧ AllowedTo limit inSyscall stream i := by
  -- a stream whose first event is resumed goes on as the stream behind it
  induction n generalizing inSyscall stream i with
  | zero => simp [streamRun, traceLoop]
  | succ n ih =>
    by_cases hfirst : (stream 0).allowed limit inSyscall = true
    · rw [streamRun_resume pagesize cond limit hfirst]
      cases i with
      | zero => simp [TraceRun.cons, allowedTo_zero, hfirst]
      | succ i => simp [TraceRun.cons, ih, allowedTo_succ, hfirst]
    · have hnone := streamRun_refuse pagesize cond limit hfirst n i e
      -- nothing at or behind this event is allowed
      cases i with
      | zero => simp [hnone, allowedTo_zero, hfirst]
      | succ i => simp [hnone, allowedTo_succ, hfirst]

/-- Allowed stops are resumed for ever. -/
theorem streamRun_blocked (inSyscall : Bool) (stream : ℕ → WaitEvent)
    (h : ∀ i, AllowedTo limit inSyscall stream i) (n : ℕ) :
    (streamRun pagesize cond limit inSyscall stream n).result = .error .blocked := by
  induction n generalizing inSyscall stream with
  | zero => rfl
  | succ n ih =>
    have hfirst := (allowedTo_zero limit inSyscall stream).mp (h 0)
    rw [streamRun_resume pagesize cond limit hfirst]
    apply ih
    intro i
    exact ((allowedTo_succ limit inSyscall stream i).mp (h (i+1))).2

/-- No stop over a limit is resumed, and a program that makes permitted calls for ever and passes
its time limit is stopped for it. -/
structure EnforcesLimits (stream : ℕ → WaitEvent) : Prop where
  resumes : ∀ n e, (e, .ptraceSyscall) ∈
    (streamRun pagesize cond limit false stream n).requests → ¬ Exceeds pagesize cond e.resource
  returns : (∀ i, AllowedTo limit false stream i) →
    (∃ i, (cond.timeLimit.toNat : ℤ) < exactTime (stream i).resource) →
    ∃ n code results, (streamRun pagesize cond limit false stream n).result =
      .ok (code, results) ∧ results.judgeResult = .kTLE

/-- `TraceLoop` enforces the limits on a stream exactly when the stream never comes to a stop over
a limit by way of allowed stops only. -/
theorem traceLoop_enforces_iff (stream : ℕ → WaitEvent) :
    EnforcesLimits pagesize cond limit stream ↔
      ∀ i, AllowedTo limit false stream i → ¬ Exceeds pagesize cond (stream i).resource := by
  constructor
  · intro h i hallow
    have hreq := (streamRun_resumes_iff pagesize cond limit false stream (i+1) i (stream i)).mpr
      ⟨by omega, rfl, hallow⟩
    exact h.resumes (i+1) (stream i) (List.mem_of_getElem? hreq)
  · intro h
    constructor
    · intro n e he
      obtain ⟨i, hreq⟩ := List.mem_iff_getElem?.mp he
      obtain ⟨_, rfl, hallow⟩ :=
        (streamRun_resumes_iff pagesize cond limit false stream n i e).mp hreq
      exact h i hallow
    -- a stream that only makes permitted calls comes to its stop over the limit
    · rintro hallow ⟨i, htime⟩
      exact absurd (Or.inl htime) (h i (hallow i))

end Limits

section Spin

/-- A program that reads for ever, with one more second of user time at every stop. -/
def spin (i : ℕ) : WaitEvent := .stopped SIGTRAP 0 ⟨i, 0, 100⟩

theorem spin_allowed (i : ℕ) : AllowedTo cCallLimit false spin i := by
  intro j _
  have hread : toInt 0 ∈ cCallLimit := by decide
  simp [spin, WaitEvent.allowed, stopAllowed, hread]

/-- A program within its whitelist is never stopped, however much time it takes. -/
theorem not_traceLoop_enforces :
    ¬ ∀ (pagesize : ℤ) (cond : ExecuteCondtion) (limit : CallLimit) (stream : ℕ → WaitEvent),
      EnforcesLimits pagesize cond limit stream := by
  intro hclaim
  have henforce := hclaim 4096 ⟨1000, 65536, -1, true, 0⟩ cCallLimit spin
  have htime : (1000 : ℤ) < exactTime (spin 2).resource := by decide
  obtain ⟨n, code, results, hreturn, _⟩ := henforce.returns spin_allowed ⟨2, htime⟩
  have hblocked := streamRun_blocked 4096 ⟨1000, 65536, -1, true, 0⟩ cCallLimit false spin
    spin_allowed n
  rw [hblocked] at hreturn
  exact absurd hreturn (by simp)

end Spin

end OnlineJudge
