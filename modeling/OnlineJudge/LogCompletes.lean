import OnlineJudge.LogLines

/-! No thread waits for the mutex of the log for ever: some thread can always go on, and when none
has a call left, the file holds the lines of all statements. -/
namespace OnlineJudge
open Transition

section Thread
variable {order : EvalOrder} {name : Bytes} {log : Log} {todo : List LogCall}
  {left : List Statement} {text : Bytes}

theorem Statement.calls_ne_nil (st : Statement) (order : EvalOrder) : st.calls order ≠ [] := by
  cases order <;> simp [Statement.calls, EvalOrder.early, EvalOrder.late]

theorem EvalOrder.late_ne_nil (order : EvalOrder) : order.late ≠ [] := by
  cases order <;> simp [EvalOrder.late]

/-- A thread that has the mutex has still to give it back. -/
theorem Stands.todo_ne_nil (h : Stands order name log todo left text)
    (hlock : log.isLock = true) : todo ≠ [] := by
  cases h with
  | idle hunlocked => simp [hlock] at hunlocked
  | armed st rest _ _ htodo => simp [htodo, order.late_ne_nil]
  | writing st rest tm done more _ _ _ _ htodo => simp [htodo, order.late_ne_nil]
  | closing st rest tm _ _ _ htodo => simp [htodo]

/-- A thread without calls has no statement left. -/
theorem Stands.left_eq_nil (h : Stands order name log [] left text) : left = [] := by
  cases h with
  | idle _ _ htodo =>
    rw [List.eq_nil_iff_forall_not_mem]
    intro st hst
    have hcalls := List.flatMap_eq_nil_iff.mp htodo.symm st hst
    exact st.calls_ne_nil order hcalls
  | armed st rest _ _ htodo => simp [order.late_ne_nil] at htodo
  | writing st rest tm done more _ _ _ _ htodo => simp [order.late_ne_nil] at htodo
  | closing st rest tm _ _ _ htodo => simp at htodo

end Thread

section Threads
variable {ι : Type} [DecidableEq ι] {order : EvalOrder} {names : ι → Bytes}
  {program : ι → List Statement} {s t : LogState ι}

theorem orderly_run {acts : List (LogAction ι)}
    (hrun : Run LogState.Steps (LogState.start order names program) acts t) :
    ∃ lines unfinished, Orderly order names program t lines unfinished :=
  hrun.invariant (fun s => ∃ lines unfinished, Orderly order names program s lines unfinished)
    ⟨[], [], start_orderly order names program⟩
    (fun _ _ _ ⟨_, _, hs⟩ hstep => orderly_step hs hstep)

/-- A step takes the first call from its thread, and no call from another. -/
theorem log_step_todo {a : LogAction ι} (h : LogState.Steps s a t) :
    ∃ call rest, s.todo a.i = call :: rest ∧ t.todo = Function.update s.todo a.i rest := by
  -- whatever a call does to the file and the mutex, its thread goes on to the next one
  unfold LogState.Steps LogState.step at h
  cases htodo : s.todo a.i with
  | nil => simp [htodo] at h
  | cons call rest =>
    refine ⟨call, rest, rfl, ?_⟩
    cases call with
    | endl =>
      simp only [htodo, Option.some.injEq] at h
      rw [← h]
      rfl
    | chunk data =>
      simp only [htodo] at h
      obtain ⟨u, hlock, hout⟩ := Option.bind_eq_some_iff.mp h
      have hsame : u.todo = s.todo := by
        unfold LogState.lockofLog at hlock
        split_ifs at hlock
        · rw [← Option.some.inj hlock]
        · cases hmutex : s.mutex with
          | none =>
            simp only [hmutex, Option.some.injEq] at hlock
            rw [← hlock]
            rfl
          | some owner =>
            simp only [hmutex] at hlock
            split_ifs at hlock
            rw [← Option.some.inj hlock]
      simp only [Option.pure_def, Option.some.injEq] at hout
      rw [← hout, LogState.output_todo, LogState.goOn, hsame]
    | finish =>
      simp only [htodo, Option.some.injEq] at h
      rw [← h]
      unfold LogState.unLockofLog
      split_ifs <;> rfl

/-- The thread that has the mutex can go on, and where it is free every thread with a call can. -/
theorem log_canStep {lines : List (Line ι)} {unfinished : Bytes} {i : ι}
    (hs : Orderly order names program s lines unfinished)
    (hmutex : s.mutex = none ∨ s.mutex = some i) (htodo : s.todo i ≠ []) :
    ∃ a t, LogState.Steps s a t := by
  obtain ⟨call, rest, hcall⟩ := List.exists_cons_of_ne_nil htodo
  refine ⟨⟨i, ⟨0, 0, 0, 0, 0, 0⟩, 0⟩, ?_⟩
  -- `lockofLog` is the only call that may wait
  cases call with
  | endl => exact ⟨_, by simp only [LogState.Steps, LogState.step, hcall]; rfl⟩
  | finish => exact ⟨_, by simp only [LogState.Steps, LogState.step, hcall]; rfl⟩
  | chunk data =>
    have hlock : ∃ u, s.lockofLog i = some u := by
      rcases hmutex with hfree | hown
      · have hunlocked : (s.logs i).isLock = false := by
          by_contra hlocked
          have howner := (hs.owner i).mp (by simpa using hlocked)
          simp [hfree] at howner
        exact ⟨_, LogState.lockofLog_free hunlocked hfree⟩
      · exact ⟨s, LogState.lockofLog_held ((hs.owner i).mpr hown)⟩
    obtain ⟨u, hu⟩ := hlock
    exact ⟨_, by simp only [LogState.Steps, LogState.step, hcall, hu]; rfl⟩

/-- As long as one thread has a call left, some thread can make one. -/
theorem log_deadlockFree {lines : List (Line ι)} {unfinished : Bytes} {i : ι}
    (hs : Orderly order names program s lines unfinished) (htodo : s.todo i ≠ []) :
    ∃ a t, LogState.Steps s a t := by
  cases hmutex : s.mutex with
  | none => exact log_canStep hs (Or.inl hmutex) htodo
  | some j =>
    obtain ⟨left, text, _, _, hstands, _⟩ := (hs.thread j).stands
    have howner := hstands.todo_ne_nil ((hs.owner j).mpr hmutex)
    exact log_canStep hs (Or.inr hmutex) howner

variable [Fintype ι]

def LogState.callsLeft (s : LogState ι) : ℕ := ∑ i, (s.todo i).length

theorem log_step_callsLeft {a : LogAction ι} (h : LogState.Steps s a t) :
    t.callsLeft+1 = s.callsLeft := by
  obtain ⟨call, rest, htodo, hupdate⟩ := log_step_todo h
  have hlength : ∀ i, (t.todo i).length+(if i = a.i then 1 else 0) = (s.todo i).length := by
    intro i
    rw [hupdate]
    by_cases hi : i = a.i
    · subst hi
      simp [htodo]
    · simp [hi]
  calc t.callsLeft+1
      = ∑ i, ((t.todo i).length+if i = a.i then 1 else 0) := by
        rw [Finset.sum_add_distrib]
        simp [LogState.callsLeft]
    _ = s.callsLeft := Finset.sum_congr rfl fun i _ => hlength i

theorem log_run_callsLeft {acts : List (LogAction ι)} (hrun : Run LogState.Steps s acts t) :
    acts.length+t.callsLeft = s.callsLeft := by
  induction hrun with
  | nil s => simp
  | cons hstep _ ih =>
    have hone := log_step_callsLeft hstep
    rw [List.length_cons]
    omega

omit [DecidableEq ι] in
theorem todo_of_callsLeft (h : s.callsLeft = 0) (i : ι) : s.todo i = [] := by
  have hlength := Finset.sum_eq_zero_iff.mp h i (Finset.mem_univ i)
  exact List.length_eq_zero_iff.mp hlength

/-- However the threads are scheduled, some thread goes on until all have made their calls, and
then the mutex is free and the file holds every statement of every thread as a whole line, once
and in the order of the thread. -/
theorem log_completes {acts : List (LogAction ι)}
    (hrun : Run LogState.Steps (LogState.start order names program) acts t) :
    acts.length+t.callsLeft = ∑ i, ((program i).flatMap (Statement.calls order)).length ∧
    (0 < t.callsLeft → ∃ a u, LogState.Steps t a u) ∧
    ((∀ a u, ¬ LogState.Steps t a u) → t.callsLeft = 0 ∧ t.mutex = none ∧
      ∃ lines : List (Line ι),
        t.file = lines.flatMap (Line.text names) ∧ ∀ i, statementsOf i lines = program i) := by
  obtain ⟨lines, unfinished, ht⟩ := orderly_run hrun
  have hprogress : 0 < t.callsLeft → ∃ a u, LogState.Steps t a u := by
    intro hleft
    obtain ⟨i, _, hi⟩ := Finset.exists_ne_zero_of_sum_ne_zero hleft.ne'
    apply log_deadlockFree ht (i := i)
    intro htodo
    simp [htodo] at hi
  refine ⟨log_run_callsLeft hrun, hprogress, ?_⟩
  intro hstuck
  have hzero : t.callsLeft = 0 := by
    by_contra hleft
    obtain ⟨a, u, hstep⟩ := hprogress (Nat.pos_of_ne_zero hleft)
    exact hstuck a u hstep
  have hdone := todo_of_callsLeft hzero
  -- a thread that still held the mutex would have its closing call left
  have hfree : t.mutex = none := by
    cases hmutex : t.mutex with
    | none => rfl
    | some j =>
      obtain ⟨_, _, _, _, hstands, _⟩ := (ht.thread j).stands
      exact absurd (hdone j) (hstands.todo_ne_nil ((ht.owner j).mpr hmutex))
  refine ⟨hzero, hfree, lines, ?_, ?_⟩
  · rw [ht.file, ht.free hfree, List.append_nil]
    rfl
  · intro i
    obtain ⟨left, _, _, _, hstands, hprogram, _⟩ := (ht.thread i).stands
    rw [hdone i] at hstands
    rw [hprogram, hstands.left_eq_nil, List.append_nil]

end Threads

section TwoThreads

theorem log_completes_twoThreads : ∃ t,
    Run LogState.Steps twoThreads turns t ∧ t.file = turnsText ∧ t.callsLeft = 0 ∧
    turns.length+t.callsLeft = 11 ∧
    (0 < t.callsLeft → ∃ a u, LogState.Steps t a u) ∧
    ((∀ a u, ¬ LogState.Steps t a u) → t.callsLeft = 0 ∧ t.mutex = none ∧
      ∃ lines : List (Line Bool),
        t.file = lines.flatMap (Line.text workerName) ∧
        ∀ i, statementsOf i lines = workerProgram i) := by
  obtain ⟨t, hrun, hfile, _, hdone⟩ := turns_run
  have hleft : t.callsLeft = 0 := by simp [LogState.callsLeft, hdone]
  exact ⟨t, hrun, hfile, hleft, log_completes hrun⟩

end TwoThreads

end OnlineJudge
