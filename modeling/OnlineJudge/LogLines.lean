import OnlineJudge.Log

/-! The lines of the log are atomic: the mutex is held from the first chunk of a statement to
the end of its line, and the prefixes are written once for each line. -/
namespace OnlineJudge
open Transition

/-- A line of the log, with the statement that it comes from. -/
structure Line (ι : Type) where
  thread : ι
  tm : Tm
  statement : Statement

/-- The time prefix and the name in front of a line. -/
def lineHead (name : Bytes) (tm : Tm) : Bytes := timePrefix tm ++ Log.bracketed name

section Lines
variable {ι : Type}

def Line.text (names : ι → Bytes) (line : Line ι) : Bytes :=
  lineHead (names line.thread) line.tm ++ line.statement.chunks.flatten ++ [10]

def linesText (names : ι → Bytes) (lines : List (Line ι)) : Bytes :=
  lines.flatMap (Line.text names)

theorem linesText_append (names : ι → Bytes) (lines : List (Line ι)) (line : Line ι) :
    linesText names (lines ++ [line]) = linesText names lines ++ line.text names := by
  simp [linesText]

variable [DecidableEq ι]

def statementsOf (i : ι) (lines : List (Line ι)) : List Statement :=
  (lines.filter (fun line => line.thread = i)).map Line.statement

theorem statementsOf_self (i : ι) (lines : List (Line ι)) (tm : Tm) (st : Statement) :
    statementsOf i (lines ++ [⟨i, tm, st⟩]) = statementsOf i lines ++ [st] := by
  simp [statementsOf]

theorem statementsOf_of_ne {i j : ι} (h : j ≠ i) (lines : List (Line ι)) (tm : Tm)
    (st : Statement) : statementsOf j (lines ++ [⟨i, tm, st⟩]) = statementsOf j lines := by
  simp [statementsOf, Ne.symm h]

end Lines

namespace Log

def Armed (log : Log) : Prop := log.isTimePrefix = true ∧ log.isPrefix = true

def Disarmed (log : Log) : Prop := log.isTimePrefix = false ∧ log.isPrefix = false

theorem opening_armed {log : Log} {name : Bytes} (h : log.Armed) (hname : log.name = some name)
    (tm : Tm) : log.opening tm = lineHead name tm := by
  simp [opening, h.1, h.2, hname, lineHead]

theorem opening_disarmed {log : Log} (h : log.Disarmed) (tm : Tm) : log.opening tm = [] := by
  simp [opening, h.1, h.2]

theorem endl_armed {log : Log} {name : Bytes} (hname : log.name = some name) :
    log.endl.Armed := by
  simp [Armed, endl, hname]

end Log

/-- Where a thread stands in its statements: `left` are those whose lines are not complete, and
`text` is what it has written of the first of them. -/
inductive Stands (order : EvalOrder) (name : Bytes) (log : Log) (todo : List LogCall)
    (left : List Statement) (text : Bytes) : Prop
  | idle (hlock : log.isLock = false) (hflags : order = .after → log.Armed)
      (htodo : todo = left.flatMap (Statement.calls order)) (htext : text = [])
  | armed (st : Statement) (rest : List Statement) (hleft : left = st :: rest)
      (hflags : log.Armed)
      (htodo : todo = st.chunks.map .chunk ++ order.late ++ rest.flatMap (Statement.calls order))
      (htext : text = [])
  | writing (st : Statement) (rest : List Statement) (tm : Tm) (done more : List Bytes)
      (hleft : left = st :: rest) (hlock : log.isLock = true) (hflags : log.Disarmed)
      (hchunks : st.chunks = done ++ more)
      (htodo : todo = more.map .chunk ++ order.late ++ rest.flatMap (Statement.calls order))
      (htext : text = lineHead name tm ++ done.flatten)
  | closing (st : Statement) (rest : List Statement) (tm : Tm) (hleft : left = st :: rest)
      (hlock : log.isLock = true) (hflags : order = .after → log.Armed)
      (htodo : todo = .finish :: rest.flatMap (Statement.calls order))
      (htext : text = lineHead name tm ++ st.chunks.flatten)

section Thread
variable {order : EvalOrder} {name : Bytes} {log : Log} {todo : List LogCall}
  {left : List Statement} {text : Bytes}

/-- What the next call of a thread does to it, if it has one. -/
inductive NextCall (order : EvalOrder) (name : Bytes) (log : Log) (todo : List LogCall)
    (left : List Statement) (text : Bytes) : Prop
  | none (htodo : todo = [])
  | endl (rest : List LogCall) (htodo : todo = .endl :: rest)
      (hnext : Stands order name log.endl rest left text)
  | chunk (data : Bytes) (rest : List LogCall) (htodo : todo = .chunk data :: rest)
      (hnext : ∀ (tm : Tm) (log' : Log), log'.isLock = true → log'.Disarmed →
        Stands order name log' rest left (text ++ log.opening tm ++ data))
  | finish (rest : List LogCall) (st : Statement) (left' : List Statement) (tm : Tm)
      (htodo : todo = .finish :: rest) (hlock : log.isLock = true) (hleft : left = st :: left')
      (htext : text = lineHead name tm ++ st.chunks.flatten)
      (hnext : ∀ log' : Log, log'.isLock = false → (log.Armed → log'.Armed) →
        Stands order name log' rest left' [])

/-- The first chunk takes the mutex, and finds both prefixes due. -/
theorem nextCall_armed {st : Statement} {rest : List Statement} (hname : log.name = some name)
    (hflags : log.Armed) (hleft : left = st :: rest)
    (htodo : todo = st.chunks.map .chunk ++ order.late ++ rest.flatMap (Statement.calls order))
    (htext : text = []) : NextCall order name log todo left text := by
  obtain ⟨c, more, hchunks⟩ := List.exists_cons_of_ne_nil st.nonempty
  refine .chunk c (more.map .chunk ++ order.late ++ rest.flatMap (Statement.calls order)) ?_ ?_
  · rw [htodo, hchunks]
    rfl
  · intro tm log' hlock hdisarmed
    refine .writing st rest tm [c] more hleft hlock hdisarmed (by rw [hchunks]; rfl) rfl ?_
    rw [htext, Log.opening_armed hflags hname]
    simp

/-- The last call ends the line and leaves the log as the next statement needs it. -/
theorem nextCall_closing {st : Statement} {rest : List Statement} {tm : Tm}
    (hlock : log.isLock = true) (hflags : order = .after → log.Armed) (hleft : left = st :: rest)
    (htodo : todo = .finish :: rest.flatMap (Statement.calls order))
    (htext : text = lineHead name tm ++ st.chunks.flatten) :
    NextCall order name log todo left text := by
  refine .finish _ st rest tm htodo hlock hleft htext ?_
  intro log' hunlock harmed
  exact .idle hunlock (fun horder => harmed (hflags horder)) rfl rfl

theorem Stands.next (h : Stands order name log todo left text) (hname : log.name = some name) :
    NextCall order name log todo left text := by
  cases h with
  | idle hlock hflags htodo htext =>
    cases left with
    | nil => exact .none htodo
    | cons st rest =>
      cases order with
      | before =>
        -- the flags may still be those of the last line; `endl` sets them first
        refine .endl _ htodo ?_
        exact .armed st rest rfl (Log.endl_armed hname) rfl htext
      | after => exact nextCall_armed hname (hflags rfl) rfl htodo htext
  | armed st rest hleft hflags htodo htext =>
    exact nextCall_armed hname hflags hleft htodo htext
  | writing st rest tm done more hleft hlock hflags hchunks htodo htext =>
    cases more with
    | nil =>
      have hdone : st.chunks = done := by rw [hchunks, List.append_nil]
      rw [← hdone] at htext
      cases order with
      | before => exact nextCall_closing hlock (by simp) hleft htodo htext
      | after =>
        -- `endl` arms the prefixes of the next line behind the last chunk
        refine .endl _ htodo ?_
        exact .closing st rest tm hleft hlock (fun _ => Log.endl_armed hname) rfl htext
    | cons c more =>
      refine .chunk c _ htodo ?_
      intro tm' log' hlock' hdisarmed
      refine .writing st rest tm (done ++ [c]) more hleft hlock' hdisarmed ?_ rfl ?_
      · rw [hchunks, List.append_assoc]
        rfl
      · rw [htext, Log.opening_disarmed hflags]
        simp
  | closing st rest tm hleft hlock hflags htodo htext =>
    exact nextCall_closing hlock hflags hleft htodo htext

/-- The mutex is taken in front of the first chunk. -/
theorem Stands.lock {data : Bytes} {rest : List LogCall}
    (h : Stands order name log todo left text) (hunlocked : log.isLock = false)
    (hchunk : todo = .chunk data :: rest) :
    Stands order name { log with isLock := true } todo left text := by
  -- a thread without the mutex is in front of the first chunk of its statement
  cases h with
  | idle _ hflags htodo htext =>
    cases left with
    | nil => simp [htodo] at hchunk
    | cons st left =>
      cases order with
      | before => simp [htodo, Statement.calls, EvalOrder.early] at hchunk
      | after => exact .armed st left rfl (hflags rfl) htodo htext
  | armed st left' hleft hflags htodo htext => exact .armed st left' hleft hflags htodo htext
  | writing _ _ _ _ _ _ hlock => simp [hunlocked] at hlock
  | closing _ _ _ _ hlock => simp [hunlocked] at hlock

end Thread

section Threads
variable {ι : Type} [DecidableEq ι]

/-- What a thread has to do with the lines in the file, of which the last one may be
unfinished. -/
structure ThreadOk (order : EvalOrder) (names : ι → Bytes) (program : ι → List Statement)
    (lines : List (Line ι)) (unfinished : Bytes) (i : ι) (log : Log) (todo : List LogCall) :
    Prop where
  named : log.name = some (names i)
  stands : ∃ left text buffer, log.out = some buffer ∧
    Stands order (names i) log todo left text ∧ program i = statementsOf i lines ++ left ∧
    text = (if log.isLock then unfinished else []) ++ buffer

structure Orderly (order : EvalOrder) (names : ι → Bytes) (program : ι → List Statement)
    (s : LogState ι) (lines : List (Line ι)) (unfinished : Bytes) : Prop where
  defined : s.undefined = false
  owner : ∀ i, (s.logs i).isLock = true ↔ s.mutex = some i
  file : s.file = linesText names lines ++ unfinished
  free : s.mutex = none → unfinished = []
  thread : ∀ i, ThreadOk order names program lines unfinished i (s.logs i) (s.todo i)

variable {order : EvalOrder} {names : ι → Bytes} {program : ι → List Statement}
  {s t : LogState ι} {lines : List (Line ι)} {unfinished : Bytes}

theorem start_orderly (order : EvalOrder) (names : ι → Bytes) (program : ι → List Statement) :
    Orderly order names program (LogState.start order names program) [] [] := by
  refine ⟨rfl, ?_, rfl, fun _ => rfl, ?_⟩
  · intro i
    simp [LogState.start, Log.setLog, Log.setPrefix]
  · intro i
    refine ⟨rfl, program i, [], [], rfl, ?_, rfl, rfl⟩
    exact .idle rfl (fun _ => ⟨rfl, rfl⟩) rfl rfl

/-- A thread without the mutex does not depend on the line that is being written, nor on the
lines of others. -/
theorem ThreadOk.frame {lines' : List (Line ι)} {unfinished' : Bytes} {i : ι} {log : Log}
    {todo : List LogCall} (h : ThreadOk order names program lines unfinished i log todo)
    (hlock : log.isLock = false) (hlines : statementsOf i lines' = statementsOf i lines) :
    ThreadOk order names program lines' unfinished' i log todo := by
  obtain ⟨left, text, buffer, hout, hstands, hprogram, htext⟩ := h.stands
  refine ⟨h.named, left, text, buffer, hout, hstands, ?_, ?_⟩
  · rw [hlines]
    exact hprogram
  · simpa [hlock] using htext

/-- Of the other threads, none holds the mutex. -/
theorem Orderly.other_unlocked (hs : Orderly order names program s lines unfinished) {i j : ι}
    (hmutex : s.mutex = none ∨ s.mutex = some i) (hj : j ≠ i) : (s.logs j).isLock = false := by
  by_contra hlock
  have howner := (hs.owner j).mp (by simpa using hlock)
  rcases hmutex with hmutex | hmutex
  · simp [hmutex] at howner
  · exact hj (Option.some.inj (howner.symm.trans hmutex))

/-- A step of the thread that has the mutex, or takes it when it is free, concerns no other
thread. -/
theorem Orderly.of_owner (hs : Orderly order names program s lines unfinished) {i : ι}
    {lines' : List (Line ι)} {unfinished' : Bytes} (hmutex : s.mutex = none ∨ s.mutex = some i)
    (hmutex' : t.mutex = none ∨ t.mutex = some i) (hdefined : t.undefined = false)
    (howner : (t.logs i).isLock = true ↔ t.mutex = some i)
    (hfile : t.file = linesText names lines' ++ unfinished')
    (hfree : t.mutex = none → unfinished' = [])
    (hother : ∀ j, j ≠ i → t.logs j = s.logs j ∧ t.todo j = s.todo j ∧
      statementsOf j lines' = statementsOf j lines)
    (hthread : ThreadOk order names program lines' unfinished' i (t.logs i) (t.todo i)) :
    Orderly order names program t lines' unfinished' := by
  -- only the thread with the mutex changes the file, so the others stand where they stood
  refine ⟨hdefined, ?_, hfile, hfree, ?_⟩
  · intro j
    by_cases hj : j = i
    · rw [hj]
      exact howner
    · rw [(hother j hj).1, hs.other_unlocked hmutex hj]
      rcases hmutex' with hmutex' | hmutex'
      · simp [hmutex']
      · simp [hmutex', Ne.symm hj]
  · intro j
    by_cases hj : j = i
    · rw [hj]
      exact hthread
    · obtain ⟨hlog, htodo, hlines⟩ := hother j hj
      rw [hlog, htodo]
      exact (hs.thread j).frame (hs.other_unlocked hmutex hj) hlines

theorem orderly_endl (hs : Orderly order names program s lines unfinished) {i : ι}
    {rest : List LogCall} {left : List Statement} {text buffer : Bytes}
    (hout : (s.logs i).out = some buffer)
    (hnext : Stands order (names i) (s.logs i).endl rest left text)
    (hprogram : program i = statementsOf i lines ++ left)
    (htext : text = (if (s.logs i).isLock then unfinished else []) ++ buffer) :
    Orderly order names program ((s.goOn i rest).setLog i (s.logs i).endl) lines unfinished := by
  -- `endl` sets flags and touches neither the file nor the mutex
  refine ⟨hs.defined, ?_, hs.file, hs.free, ?_⟩
  · intro j
    by_cases hj : j = i
    · subst hj
      rw [LogState.setLog_self]
      exact hs.owner j
    · rw [LogState.setLog_of_ne _ _ hj]
      exact hs.owner j
  · intro j
    by_cases hj : j = i
    · subst hj
      rw [LogState.setLog_self, LogState.setLog_todo, LogState.goOn_self]
      exact ⟨(hs.thread j).named, left, text, buffer, hout, hnext, hprogram, htext⟩
    · rw [LogState.setLog_of_ne _ _ hj, LogState.setLog_todo, LogState.goOn_of_ne _ _ hj]
      exact hs.thread j

theorem orderly_chunk (hs : Orderly order names program s lines unfinished) {i : ι} {tm : Tm}
    {drained : ℕ} {data : Bytes} {rest : List LogCall} {left : List Statement}
    {text buffer : Bytes} (hlock : (s.logs i).isLock = true) (hout : (s.logs i).out = some buffer)
    (hnext : ∀ log' : Log, log'.isLock = true → log'.Disarmed →
      Stands order (names i) log' rest left (text ++ (s.logs i).opening tm ++ data))
    (hprogram : program i = statementsOf i lines ++ left) (htext : text = unfinished ++ buffer) :
    Orderly order names program
      ((s.goOn i rest).output i (((s.logs i).insert tm data).drain drained)) lines
      (unfinished ++ (buffer ++ (s.logs i).opening tm ++ data).take drained) := by
  have hmutex := (hs.owner i).mp hlock
  rw [Log.insert_drain hout]
  refine hs.of_owner (Or.inr hmutex) (Or.inr hmutex) hs.defined ?_ ?_ ?_ ?_ ?_
  · rw [LogState.output_self]
    exact hs.owner i
  · change s.file ++ _ = _
    rw [hs.file, List.append_assoc]
  · intro hfree
    have hnone : s.mutex = none := hfree
    simp [hnone] at hmutex
  · intro j hj
    exact ⟨LogState.output_of_ne _ _ hj, LogState.goOn_of_ne _ _ hj, rfl⟩
  · rw [LogState.output_self, LogState.output_todo, LogState.goOn_self]
    refine ⟨(hs.thread i).named, left, _, _, rfl, hnext _ hlock ⟨rfl, rfl⟩, hprogram, ?_⟩
    rw [if_pos hlock, List.append_assoc unfinished, List.take_append_drop, htext]
    simp

/-- The end of a line, and with it of the hold on the mutex. -/
theorem orderly_finish (hs : Orderly order names program s lines unfinished) {i : ι} {tm : Tm}
    {rest : List LogCall} {st : Statement} {left : List Statement} {text buffer : Bytes}
    (hlock : (s.logs i).isLock = true) (hout : (s.logs i).out = some buffer)
    (hhead : text = lineHead (names i) tm ++ st.chunks.flatten)
    (hnext : ∀ log' : Log, log'.isLock = false → ((s.logs i).Armed → log'.Armed) →
      Stands order (names i) log' rest left [])
    (hprogram : program i = statementsOf i lines ++ st :: left)
    (htext : text = unfinished ++ buffer) :
    Orderly order names program
      (((s.goOn i rest).output i (s.logs i).finish).unLockofLog i) (lines ++ [⟨i, tm, st⟩]) [] := by
  have hmutex := (hs.owner i).mp hlock
  -- the buffer goes to the file with its line end, and the mutex is free
  have hstate : ((s.goOn i rest).output i (s.logs i).finish).unLockofLog i =
      { (s.goOn i rest).setLog i { s.logs i with out := some [], isLock := false } with
        file := s.file ++ (buffer ++ [10])
        mutex := none } := by
    rw [Log.finish_some hout, LogState.unLockofLog, LogState.output_self, if_pos hlock]
    simp [LogState.output, LogState.setLog, LogState.goOn, hmutex]
  rw [hstate]
  refine hs.of_owner (Or.inr hmutex) (Or.inl rfl) hs.defined ?_ ?_ (fun _ => rfl) ?_ ?_
  · simp [LogState.setLog]
  · change s.file ++ _ = _
    rw [hs.file, linesText_append, Line.text, ← hhead, htext]
    simp
  · intro j hj
    exact ⟨LogState.setLog_of_ne _ _ hj, LogState.goOn_of_ne _ _ hj,
      statementsOf_of_ne hj lines tm st⟩
  · simp only [LogState.setLog_self, LogState.setLog_todo, LogState.goOn_self]
    refine ⟨(hs.thread i).named, left, [], [], rfl, hnext _ rfl (fun h => h), ?_, by simp⟩
    rw [hprogram, statementsOf_self]
    simp

theorem orderly_lock (hs : Orderly order names program s lines unfinished) {i : ι}
    {data : Bytes} {rest : List LogCall} (htodo : s.todo i = .chunk data :: rest)
    (hlock : (s.logs i).isLock = false) (hmutex : s.mutex = none) :
    Orderly order names program
      { s.setLog i { s.logs i with isLock := true } with mutex := some i } lines unfinished := by
  have hempty := hs.free hmutex
  refine hs.of_owner (Or.inl hmutex) (Or.inr rfl) hs.defined ?_ hs.file (fun _ => hempty) ?_ ?_
  · simp [LogState.setLog]
  · intro j hj
    exact ⟨LogState.setLog_of_ne _ _ hj, rfl, rfl⟩
  · have hthread := hs.thread i
    obtain ⟨left, text, buffer, hout, hstands, hprogram, htext⟩ := hthread.stands
    simp only [LogState.setLog_self, LogState.setLog_todo]
    refine ⟨hthread.named, left, text, buffer, hout, hstands.lock hlock htodo, hprogram, ?_⟩
    simpa [hlock, hempty] using htext

/-- One call keeps the threads in order; it can complete a line. -/
theorem orderly_step (hs : Orderly order names program s lines unfinished) {a : LogAction ι}
    (h : LogState.Steps s a t) :
    ∃ lines' unfinished', Orderly order names program t lines' unfinished' := by
  have hthread := hs.thread a.i
  obtain ⟨left, text, buffer, hout, hstands, hprogram, htext⟩ := hthread.stands
  unfold LogState.Steps LogState.step at h
  cases hstands.next hthread.named with
  | none htodo => simp [htodo] at h
  | endl rest htodo hnext =>
    rw [htodo, Option.some.injEq] at h
    rw [← h]
    exact ⟨lines, unfinished, orderly_endl hs hout hnext hprogram htext⟩
  | finish rest st left' tm htodo hlock hleft hhead hnext =>
    rw [htodo, Option.some.injEq] at h
    rw [if_pos hlock] at htext
    rw [hleft] at hprogram
    rw [← h]
    exact ⟨_, _, orderly_finish hs hlock hout hhead hnext hprogram htext⟩
  | chunk data rest htodo hnext =>
    cases hlock : (s.logs a.i).isLock with
    | true =>
      rw [if_pos hlock] at htext
      simp only [htodo, LogState.lockofLog_held hlock, Option.bind_eq_bind, Option.bind_some,
        Option.pure_def, Option.some.injEq] at h
      rw [← h]
      exact ⟨_, _, orderly_chunk hs hlock hout (fun log' => hnext a.tm log') hprogram htext⟩
    | false =>
      cases hmutex : s.mutex with
      | some j =>
        -- another thread holds the mutex, and this one cannot step
        have hj : j ≠ a.i := by
          intro hj
          have hheld := (hs.owner a.i).mpr (by rw [hmutex, hj])
          simp [hlock] at hheld
        simp [htodo, LogState.lockofLog_waits hlock hmutex hj] at h
      | none =>
        -- the first chunk: the lock, and then the chunk as a holder of the mutex writes it
        have hs' := orderly_lock hs htodo hlock hmutex
        simp only [htodo, LogState.lockofLog_free hlock hmutex, Option.bind_eq_bind,
          Option.bind_some, Option.pure_def, Option.some.injEq] at h
        rw [← h]
        have htext' : text = unfinished ++ buffer := by
          simpa [hlock, hs.free hmutex] using htext
        refine ⟨_, _, orderly_chunk hs' (by simp) (by simpa using hout) ?_ hprogram htext'⟩
        intro log' hlocked hdisarmed
        simpa [Log.opening] using hnext a.tm log' hlocked hdisarmed

/-- The lines of a log are atomic: at most one thread has its log locked, and owns the mutex; no
thread locks the mutex twice or unlocks it for another one; and when no log is locked, the file
consists of complete lines, those of each thread for its statements in their order. -/
theorem log_lines_atomic {acts : List (LogAction ι)}
    (hrun : Run LogState.Steps (LogState.start order names program) acts t) :
    (∀ i j, (t.logs i).isLock = true → (t.logs j).isLock = true → i = j) ∧
    (∀ i, (t.logs i).isLock = true → t.mutex = some i) ∧ t.undefined = false ∧
    ((∀ i, (t.logs i).isLock = false) → ∃ lines : List (Line ι),
      t.file = lines.flatMap (Line.text names) ∧ ∀ i, statementsOf i lines <+: program i) := by
  have horderly : ∃ lines unfinished, Orderly order names program t lines unfinished := by
    refine hrun.invariant
      (fun s => ∃ lines unfinished, Orderly order names program s lines unfinished)
      ⟨[], [], start_orderly order names program⟩ ?_
    intro s a t ⟨lines, unfinished, hs⟩ hstep
    exact orderly_step hs hstep
  obtain ⟨lines, unfinished, ht⟩ := horderly
  refine ⟨?_, fun i => (ht.owner i).mp, ht.defined, ?_⟩
  · intro i j hi hj
    exact Option.some.inj (((ht.owner i).mp hi).symm.trans ((ht.owner j).mp hj))
  · intro hunlocked
    -- an owner would have its log locked
    have hfree : t.mutex = none := by
      cases hmutex : t.mutex with
      | none => rfl
      | some i =>
        have hlocked := (ht.owner i).mpr hmutex
        simp [hunlocked i] at hlocked
    refine ⟨lines, ?_, ?_⟩
    · rw [ht.file, ht.free hfree, List.append_nil]
      rfl
    · intro i
      obtain ⟨left, _, _, _, _, hprogram, _⟩ := (ht.thread i).stands
      exact ⟨left, hprogram.symm⟩

end Threads

section TwoThreads

def workerName (i : Bool) : Bytes := if i then str "JudgeWorker 1" else str "JudgeWorker 0"

/-- One worker logs two lines, and the other one logs one. -/
def workerProgram (i : Bool) : List Statement :=
  if i then [⟨[str "recv ", str "8"], by simp⟩]
  else [⟨[str "recv ", str "7"], by simp⟩, ⟨[str "reply"], by simp⟩]

def twoThreads : LogState Bool := LogState.start .before workerName workerProgram

/-- They take turns, also within their lines, and some bytes are written early. -/
def turns : List (LogAction Bool) :=
  [(false, 0), (false, 3), (true, 0), (false, 0), (false, 0), (true, 70), (false, 0), (true, 1),
    (true, 0), (false, 9), (false, 0)].map fun turn => ⟨turn.1, ⟨126, 0, 2, 3, 4, 5⟩, turn.2⟩

def turnsText : Bytes :=
  str "[2026-01-02 03:04:05] [JudgeWorker 0] recv 7\n" ++
  str "[2026-01-02 03:04:05] [JudgeWorker 1] recv 8\n" ++
  str "[2026-01-02 03:04:05] [JudgeWorker 0] reply\n"

theorem turns_run : ∃ t, Run LogState.Steps twoThreads turns t ∧ t.file = turnsText ∧
    (∀ i, (t.logs i).isLock = false) ∧ ∀ i, t.todo i = [] := by
  have hend : (turns.foldlM LogState.step twoThreads).any (fun t =>
      decide (t.file = turnsText ∧ (∀ i, (t.logs i).isLock = false) ∧ ∀ i, t.todo i = [])) =
        true := by
    decide +kernel
  obtain ⟨t, hsteps, ht⟩ := (Option.any_eq_true _ _).mp hend
  exact ⟨t, Run.of_foldlM hsteps, of_decide_eq_true ht⟩

theorem log_lines_atomic_twoThreads : ∃ t,
    Run LogState.Steps twoThreads turns t ∧ t.file = turnsText ∧
    (∀ i, (t.logs i).isLock = false) ∧
    (∀ i j, (t.logs i).isLock = true → (t.logs j).isLock = true → i = j) ∧
    (∀ i, (t.logs i).isLock = true → t.mutex = some i) ∧ t.undefined = false ∧
    ((∀ i, (t.logs i).isLock = false) → ∃ lines : List (Line Bool),
      t.file = lines.flatMap (Line.text workerName) ∧
      ∀ i, statementsOf i lines <+: workerProgram i) := by
  obtain ⟨t, hrun, hfile, hfree, _⟩ := turns_run
  exact ⟨t, hrun, hfile, hfree, log_lines_atomic hrun⟩

end TwoThreads

end OnlineJudge
