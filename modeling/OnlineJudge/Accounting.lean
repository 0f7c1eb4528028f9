import OnlineJudge.Judger

/-! The resources that `Judge::Run` stores, against the exact sums of the `rusage` that its last
`wait4` reports. -/
namespace OnlineJudge
open Posix

/-- The user time of a child, in milliseconds. -/
def exactTime (resource : Rusage) : ℤ := resource.utimeSec*1000+resource.utimeUsec.tdiv 1000

/-- The memory that a child has touched, in KiB. -/
def faultMemory (pagesize : ℤ) (resource : Rusage) : ℤ := resource.minflt*(pagesize.tdiv 1024)

/-- The memory that is charged, less what the runtime of the language takes. -/
def exactMemory (pagesize : ℤ) (memoryAdd : UInt32) (resource : Rusage) : ℤ :=
  max 0 (faultMemory pagesize resource-memoryAdd.toNat)

section Stored

theorem toNat_ofInt_exact_iff (x : ℤ) :
    ((UInt32.ofInt x).toNat : ℤ) = x ↔ 0 ≤ x ∧ x < 2^32 := by
  have hmod : (x % 2^32).toNat < 2^32 := by omega
  rw [UInt32.ofInt, UInt32.toNat_ofNat_of_lt' hmod]
  omega

theorem timeUsed_exact_iff (resource : Rusage) :
    ((timeUsed resource).toNat : ℤ) = exactTime resource ↔
      0 ≤ exactTime resource ∧ exactTime resource < 2^32 :=
  toNat_ofInt_exact_iff (exactTime resource)

theorem faultMemory_nonneg {pagesize : ℤ} {resource : Rusage} (hpage : 0 ≤ pagesize)
    (hfaults : 0 ≤ resource.minflt) : 0 ≤ faultMemory pagesize resource := by
  have hpages : 0 ≤ pagesize.tdiv 1024 := Int.tdiv_nonneg hpage (by norm_num)
  exact mul_nonneg hfaults hpages

/-- The subtraction must not pass zero, and what is left of it must fit. -/
theorem memoryUsed_exact_iff {pagesize : ℤ} (memoryAdd : UInt32) {resource : Rusage}
    (hmem : 0 ≤ faultMemory pagesize resource) :
    ((memoryUsed pagesize memoryAdd resource).toNat : ℤ) =
        exactMemory pagesize memoryAdd resource ↔
      memoryAdd.toNat ≤ faultMemory pagesize resource ∧
        faultMemory pagesize resource-memoryAdd.toNat < 2^32 := by
  have hadd := memoryAdd.toNat_lt
  have hmod : ((faultMemory pagesize resource-memoryAdd.toNat) % 2^32).toNat < 2^32 := by omega
  unfold memoryUsed exactMemory
  rw [← faultMemory, UInt32.ofInt, UInt32.toNat_ofNat_of_lt' hmod]
  rcases le_or_gt (memoryAdd.toNat : ℤ) (faultMemory pagesize resource) with hle | hlt
  · rw [max_eq_right (by omega)]
    omega
  -- below zero the stored number is close to 2^32
  · rw [max_eq_left (by omega)]
    omega

/-- Without the subtraction the charge is right only where nothing was to be subtracted. -/
theorem memoryUsed_zero_exact_iff {pagesize : ℤ} (memoryAdd : UInt32) {resource : Rusage}
    (hmem : 0 ≤ faultMemory pagesize resource) :
    ((memoryUsed pagesize 0 resource).toNat : ℤ) = exactMemory pagesize memoryAdd resource ↔
      faultMemory pagesize resource < 2^32 ∧
        (memoryAdd = 0 ∨ faultMemory pagesize resource = 0) := by
  have hadd := memoryAdd.toNat_lt
  have hzero : memoryAdd = 0 ↔ memoryAdd.toNat = 0 := by
    rw [← UInt32.toNat_inj, UInt32.toNat_zero]
  have hmod : ((faultMemory pagesize resource-(0 : ℕ)) % 2^32).toNat < 2^32 := by omega
  unfold memoryUsed exactMemory
  rw [← faultMemory, UInt32.toNat_zero, UInt32.ofInt, UInt32.toNat_ofNat_of_lt' hmod, hzero]
  rcases le_or_gt (memoryAdd.toNat : ℤ) (faultMemory pagesize resource) with hle | hlt
  · rw [max_eq_right (by omega)]
    omega
  · rw [max_eq_left (by omega)]
    omega

end Stored

section Return
variable (pagesize : ℤ) (cond : ExecuteCondtion) (limit : CallLimit)

namespace WaitEvent

/-- `TraceLoop` goes round its loop again after this event. -/
def allowed (limit : CallLimit) (inSyscall : Bool) : WaitEvent → Bool
  | stopped sig origRax resource => stopAllowed limit inSyscall ⟨sig, origRax, resource⟩
  | _ => false

def isTrap : WaitEvent → Bool
  | stopped sig _ _ => sig = SIGTRAP
  | _ => false

end WaitEvent

theorem traceStep_resume_iff_allowed (inSyscall : Bool) (e : WaitEvent) :
    traceStep pagesize cond limit inSyscall e = .resume ↔ e.allowed limit inSyscall = true := by
  cases e with
  | exited code resource => simp [WaitEvent.allowed]
  | signaled sig core resource => simp [WaitEvent.allowed]
  | stopped sig origRax resource =>
    exact traceStep_stop_resume_iff pagesize cond limit inSyscall ⟨sig, origRax, resource⟩

/-- The event at which `TraceLoop` returns. -/
def traceEnd : Bool → List Answer → Option WaitEvent
  | inSyscall, .event e :: rest => if e.allowed limit inSyscall then traceEnd true rest else some e
  | _, _ => none

/-- The event of the last `wait4` whose `rusage` a call of `Judge::Run` reads. -/
def Judge.lastEvent (child : Child) : Option WaitEvent :=
  if cond.trace then traceEnd limit false child.answers
  else
    match child.answers with
    | .event e :: _ => some e
    | _ => none

/-- What `Judge::Run` subtracts from the memory: nothing at a forbidden system call. -/
def subtracted (e : WaitEvent) : UInt32 :=
  if cond.trace = true ∧ e.isTrap = true then 0 else cond.memoryAdd

/-- The two fields hold what this event reports. -/
structure Stores (e : WaitEvent) (results : Results) : Prop where
  time : results.timeUsed = timeUsed e.resource
  memory : results.memoryUsed = memoryUsed pagesize (subtracted cond e) e.resource
  verdict : ∀ code resource, e = .exited code resource →
    results.judgeResult = limitResult cond results.timeUsed results.memoryUsed

theorem exitResults_stores (e : WaitEvent) (h : subtracted cond e = cond.memoryAdd) :
    Stores pagesize cond e (exitResults pagesize cond e.resource) := by
  refine ⟨rfl, ?_, fun _ _ _ => rfl⟩
  rw [h]
  rfl

theorem signalResults_stores (e : WaitEvent) (sig : ℕ) (h : subtracted cond e = cond.memoryAdd)
    (hexit : ∀ code resource, e ≠ .exited code resource) :
    Stores pagesize cond e (signalResults pagesize cond sig e.resource) := by
  refine ⟨rfl, ?_, fun code resource he => absurd he (hexit code resource)⟩
  rw [h]
  rfl

/-- Each return of the loop stores the resources of the event it returns at. -/
theorem traceStep_stores (htrace : cond.trace = true) {inSyscall : Bool} {e : WaitEvent}
    {results : Results} (h : traceStep pagesize cond limit inSyscall e = .kill results ∨
      traceStep pagesize cond limit inSyscall e = .finish results) :
    Stores pagesize cond e results := by
  cases e with
  | exited code resource =>
    obtain rfl : exitResults pagesize cond resource = results := by simpa using h
    exact exitResults_stores pagesize cond _ (by simp [subtracted, WaitEvent.isTrap])
  | signaled sig core resource =>
    obtain rfl : signalResults pagesize cond 0 resource = results := by simpa using h
    exact signalResults_stores pagesize cond (.signaled sig core resource) 0
      (by simp [subtracted, WaitEvent.isTrap]) (by simp)
  | stopped sig origRax resource =>
    -- a trap is judged by its call, any other stop by its signal
    by_cases hsig : sig = SIGTRAP
    · subst hsig
      rw [traceStep_trap] at h
      -- a trap at which the loop returns is a forbidden call
      have hforbidden : forbiddenResults pagesize resource = results := by
        split_ifs at h
        · simpa using h
        · simp at h
      subst hforbidden
      refine ⟨rfl, ?_, by simp⟩
      simp [forbiddenResults, subtracted, htrace, WaitEvent.isTrap, WaitEvent.resource]
    · rw [traceStep_signal_stop _ _ _ _ _ hsig] at h
      obtain rfl : signalResults pagesize cond sig.num resource = results := by simpa using h
      exact signalResults_stores pagesize cond (.stopped sig origRax resource) sig.num
        (by simp [subtracted, WaitEvent.isTrap, hsig]) (by simp)

theorem traceLoop_stores (htrace : cond.trace = true) (answers : List Answer) (inSyscall : Bool)
    {code : ReturnCode} {results : Results}
    (h : (traceLoop pagesize cond limit inSyscall answers).result = .ok (code, results)) :
    ∃ e, traceEnd limit inSyscall answers = some e ∧ Stores pagesize cond e results := by
  induction answers generalizing inSyscall with
  | nil => simp [traceLoop] at h
  | cons answer rest ih =>
    cases answer with
    | wait4Error errno => simp [traceLoop, printError] at h
    | getregsError errno => simp [traceLoop, printError] at h
    | event e =>
      have hallow := traceStep_resume_iff_allowed pagesize cond limit inSyscall e
      -- the loop and `traceEnd` pass the same events
      cases hstep : traceStep pagesize cond limit inSyscall e with
      | resume =>
        simp only [traceLoop, hstep, TraceRun.cons] at h
        obtain ⟨e', hend, hstores⟩ := ih true h
        refine ⟨e', ?_, hstores⟩
        rw [traceEnd, if_pos (hallow.mp hstep), hend]
      | kill killed =>
        obtain ⟨_, rfl⟩ : .kError = code ∧ killed = results := by simpa [traceLoop, hstep] using h
        refine ⟨e, ?_, traceStep_stores pagesize cond limit htrace (Or.inl hstep)⟩
        rw [traceEnd, if_neg (hallow.not.mp (by simp [hstep]))]
      | finish finished =>
        obtain ⟨_, rfl⟩ : .kOk = code ∧ finished = results := by simpa [traceLoop, hstep] using h
        refine ⟨e, ?_, traceStep_stores pagesize cond limit htrace (Or.inr hstep)⟩
        rw [traceEnd, if_neg (hallow.not.mp (by simp [hstep]))]

theorem waitExitResults_stores (htrace : cond.trace = false) (e : WaitEvent) :
    Stores pagesize cond e (waitExitResults pagesize cond e) := by
  have hsub : subtracted cond e = cond.memoryAdd := by simp [subtracted, htrace]
  unfold waitExitResults
  split_ifs with hsignaled
  · apply signalResults_stores pagesize cond e _ hsub
    rintro code resource rfl
    simp [WaitEvent.status] at hsignaled
  · exact exitResults_stores pagesize cond e hsub

/-- Every return path of `Judge::Run` stores the resources of the last event. -/
theorem judge_run_stores {child : Child} {code : ReturnCode} {results : Results}
    (h : Judge.run pagesize cond limit child = .ok (code, results)) :
    ∃ e, Judge.lastEvent cond limit child = some e ∧ Stores pagesize cond e results := by
  unfold Judge.run at h
  -- `Judge::Run` returns from `TraceLoop`, or after the one `wait4` of `WaitExit`
  cases hfork : child.vforkError with
  | some errno => simp [hfork, printError] at h
  | none =>
    simp only [hfork] at h
    unfold Judge.lastEvent
    cases htrace : cond.trace with
    | true =>
      rw [if_pos htrace] at h
      exact traceLoop_stores pagesize cond limit htrace child.answers false h
    | false =>
      simp only [htrace, Bool.false_eq_true, if_false, call_bind_ok_iff, call_pure,
        Except.ok.injEq, Prod.mk.injEq] at h ⊢
      obtain ⟨waited, hwait, _, rfl⟩ := h
      cases hanswers : child.answers with
      | nil => simp [hanswers, waitExit] at hwait
      | cons answer rest =>
        cases answer with
        | wait4Error errno => simp [hanswers, waitExit] at hwait
        | getregsError errno => simp [hanswers, waitExit] at hwait
        | event e =>
          obtain rfl : waitExitResults pagesize cond e = waited := by
            simpa [hanswers, waitExit] using hwait
          exact ⟨e, rfl, waitExitResults_stores pagesize cond htrace e⟩

theorem judge_run_stores_last {child : Child} {code : ReturnCode} {results : Results}
    {e : WaitEvent} (h : Judge.run pagesize cond limit child = .ok (code, results))
    (hlast : Judge.lastEvent cond limit child = some e) : Stores pagesize cond e results := by
  obtain ⟨last, hl, hstores⟩ := judge_run_stores pagesize cond limit h
  obtain rfl : last = e := Option.some.inj (hl.symm.trans hlast)
  exact hstores

/-- The two fields are the exact numbers. -/
structure Exactly (resource : Rusage) (results : Results) : Prop where
  time : (results.timeUsed.toNat : ℤ) = exactTime resource
  memory : (results.memoryUsed.toNat : ℤ) = exactMemory pagesize cond.memoryAdd resource

/-- Neither number passes an end of the 32 bits, and at a forbidden call, where nothing is
subtracted, nothing had to be. -/
structure Representable (e : WaitEvent) : Prop where
  time : 0 ≤ exactTime e.resource ∧ exactTime e.resource < 2^32
  memory : ¬ (cond.trace = true ∧ e.isTrap = true) →
    cond.memoryAdd.toNat ≤ faultMemory pagesize e.resource ∧
      faultMemory pagesize e.resource-cond.memoryAdd.toNat < 2^32
  forbidden : cond.trace = true ∧ e.isTrap = true →
    faultMemory pagesize e.resource < 2^32 ∧
      (cond.memoryAdd = 0 ∨ faultMemory pagesize e.resource = 0)

theorem Stores.exactly_iff {e : WaitEvent} {results : Results}
    (h : Stores pagesize cond e results) (hmem : 0 ≤ faultMemory pagesize e.resource) :
    Exactly pagesize cond e.resource results ↔ Representable pagesize cond e := by
  have hfields : Exactly pagesize cond e.resource results ↔
      ((timeUsed e.resource).toNat : ℤ) = exactTime e.resource ∧
        ((memoryUsed pagesize (subtracted cond e) e.resource).toNat : ℤ) =
          exactMemory pagesize cond.memoryAdd e.resource := by
    rw [← h.time, ← h.memory]
    exact ⟨fun h => ⟨h.time, h.memory⟩, fun h => ⟨h.1, h.2⟩⟩
  rw [hfields, timeUsed_exact_iff]
  unfold subtracted
  by_cases hcall : cond.trace = true ∧ e.isTrap = true
  · rw [if_pos hcall, memoryUsed_zero_exact_iff cond.memoryAdd hmem]
    exact ⟨fun h => ⟨h.1, fun hno => absurd hcall hno, fun _ => h.2⟩,
      fun h => ⟨h.time, h.forbidden hcall⟩⟩
  · rw [if_neg hcall, memoryUsed_exact_iff cond.memoryAdd hmem]
    exact ⟨fun h => ⟨h.1, fun _ => h.2, fun hyes => absurd hyes hcall⟩,
      fun h => ⟨h.time, h.memory hcall⟩⟩

/-- An exit that used no more than one which was accepted exceeds neither limit. -/
def MonotoneVerdict (e e' : WaitEvent) (results results' : Results) : Prop :=
  ∀ code resource code' resource', e = .exited code resource → e' = .exited code' resource' →
    resource'.minflt ≤ resource.minflt → exactTime resource' ≤ exactTime resource →
    results.judgeResult = .kAC → results'.judgeResult ≠ .kMLE ∧ results'.judgeResult ≠ .kTLE

theorem exactMemory_mono {resource resource' : Rusage} (hpage : 0 ≤ pagesize)
    (hle : resource'.minflt ≤ resource.minflt) :
    exactMemory pagesize cond.memoryAdd resource' ≤
      exactMemory pagesize cond.memoryAdd resource := by
  have hpages : 0 ≤ pagesize.tdiv 1024 := Int.tdiv_nonneg hpage (by norm_num)
  have hfaults : faultMemory pagesize resource' ≤ faultMemory pagesize resource :=
    mul_le_mul_of_nonneg_right hle hpages
  unfold exactMemory
  omega

theorem Stores.monotone (hpage : 0 ≤ pagesize) {e e' : WaitEvent} {results results' : Results}
    (h : Stores pagesize cond e results) (h' : Stores pagesize cond e' results')
    (hexact : Exactly pagesize cond e.resource results)
    (hexact' : Exactly pagesize cond e'.resource results') :
    MonotoneVerdict e e' results results' := by
  rintro code resource code' resource' rfl rfl hfaults htime haccepted
  rw [h.verdict code resource rfl, limitResult_accepted_iff, UInt32.le_iff_toNat_le,
    UInt32.le_iff_toNat_le] at haccepted
  have hmemory := exactMemory_mono pagesize cond hpage hfaults
  -- both verdicts compare the stored numbers, and these are in the order of the exact ones
  have hleast : results'.judgeResult = .kAC := by
    rw [h'.verdict code' resource' rfl, limitResult_accepted_iff, UInt32.le_iff_toNat_le,
      UInt32.le_iff_toNat_le]
    have ht := hexact.time
    have ht' := hexact'.time
    have hm := hexact.memory
    have hm' := hexact'.memory
    simp only [WaitEvent.resource] at ht ht' hm hm'
    omega
  simp [hleast]

/-- Any two runs that return hold exact numbers, and the leaner of two exits keeps the verdict of
the other, exactly when the numbers of both can be represented. -/
theorem judge_run_accounts_iff (child child' : Child) (code code' : ReturnCode)
    (results results' : Results) (e e' : WaitEvent) (hpage : 0 ≤ pagesize)
    (hrun : Judge.run pagesize cond limit child = .ok (code, results))
    (hrun' : Judge.run pagesize cond limit child' = .ok (code', results'))
    (hlast : Judge.lastEvent cond limit child = some e)
    (hlast' : Judge.lastEvent cond limit child' = some e')
    (hfaults : 0 ≤ e.resource.minflt) (hfaults' : 0 ≤ e'.resource.minflt) :
    (Exactly pagesize cond e.resource results ∧ Exactly pagesize cond e'.resource results' ∧
      MonotoneVerdict e e' results results') ↔
      Representable pagesize cond e ∧ Representable pagesize cond e' := by
  have hstores := judge_run_stores_last pagesize cond limit hrun hlast
  have hstores' := judge_run_stores_last pagesize cond limit hrun' hlast'
  rw [← hstores.exactly_iff pagesize cond (faultMemory_nonneg hpage hfaults),
    ← hstores'.exactly_iff pagesize cond (faultMemory_nonneg hpage hfaults')]
  constructor
  · rintro ⟨h, h', _⟩
    exact ⟨h, h'⟩
  · rintro ⟨h, h'⟩
    exact ⟨h, h', hstores.monotone pagesize cond hpage hstores' h h'⟩

end Return

section Java

/-- A run of a Java program that touches 400 KiB, where the runtime is taken to use 14 MiB. -/
def leanRun : Ended := ⟨[], .exited 0, ⟨0, 5000, 100⟩⟩

def javaCondtion : ExecuteCondtion := Judger.judgeJava.executeCondtion ⟨1000, 65536, -1, false, 0⟩

def leanResults : Results where
  judgeResult := .kMLE
  timeUsed := 5
  memoryUsed := 4294953360

theorem judge_run_lean :
    Judge.run 4096 javaCondtion javaCallLimit (leanRun.child false) = .ok (.kOk, leanResults) := by
  decide +kernel

theorem judge_run_accounts_iff_lean :
    (Exactly 4096 javaCondtion leanRun.resource leanResults ∧
      Exactly 4096 javaCondtion leanRun.resource leanResults ∧
      MonotoneVerdict leanRun.fateEvent leanRun.fateEvent leanResults leanResults) ↔
      Representable 4096 javaCondtion leanRun.fateEvent ∧
        Representable 4096 javaCondtion leanRun.fateEvent :=
  judge_run_accounts_iff 4096 javaCondtion javaCallLimit _ _ _ _ _ _ leanRun.fateEvent
    leanRun.fateEvent (by decide) judge_run_lean judge_run_lean rfl rfl (by decide) (by decide)

/-- The subtraction for the runtime of Java can pass zero, and the charge is then close to the
whole 32 bits. -/
theorem not_judge_run_accounts :
    ¬ ∀ (pagesize : ℤ) (judger : Judger) (conf : ExecuteCondtion) (child : Child)
        (code : ReturnCode) (results : Results) (e : WaitEvent), 0 ≤ pagesize →
      Judge.run pagesize (judger.executeCondtion conf) judger.getCallLimit child =
        .ok (code, results) →
      Judge.lastEvent (judger.executeCondtion conf) judger.getCallLimit child = some e →
      0 ≤ e.resource.minflt →
      Exactly pagesize (judger.executeCondtion conf) e.resource results := by
  intro hclaim
  have hexact := hclaim 4096 .judgeJava ⟨1000, 65536, -1, false, 0⟩ (leanRun.child false) .kOk
    leanResults leanRun.fateEvent (by decide) judge_run_lean rfl (by decide)
  have hmemory : ((4294953360 : ℕ) : ℤ) = 0 := hexact.memory
  omega

end Java

end OnlineJudge
