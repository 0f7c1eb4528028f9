import OnlineJudge.Descriptors
import OnlineJudge.ProcessFiles

/-! A worker keeps a record of its files of its own. Here the records of the whole pool are held
against the table of the process, call by call, up to the point where the process has used up its
descriptors and ends. -/
namespace OnlineJudge
open Transition DescriptorTable

def Job.testFiles (job : Job) (num : ℕ) : TestFiles := ⟨job.conf.programId, job.conf.runId, num⟩

section Actions
variable {n : ℕ}

/-- `getFileno`, where all three files are there. -/
def getFilenoActions (i : Fin n) (test : TestFiles) : List (FilesAction n) :=
  .getFileno i test :: test.paths.map (fun _ => .openFile i false) ++ [.pushBack i]

/-- `closeAll` on this number of files. -/
def closeAllActions (i : Fin n) (count : ℕ) : List (FilesAction n) :=
  .passed i :: List.replicate count (.deleteFile i) ++ [.closed i]

/-- What the next call of a worker does to the table; the process ends with a call that fails. -/
def phaseActions (host : Host) (i : Fin n) : Phase → World → List (FilesAction n)
  | .opening job _ num _, w =>
    match getFileno job.conf num w with
    | .ok _ => getFilenoActions i (job.testFiles num)
    | .error _ => []
  | .running job _ num rightout results, w =>
    match executeTest host job.judger job.conf job.tools num rightout results w with
    | .ok (true, _, _) => closeAllActions i w.fileManager.files.length
    | .ok (false, _, _) => [.failed i]
    | .error _ => []
  | _, _ => []

def Server.fileActions (host : Host) (s : Server n) : Action n → List (FilesAction n)
  | .advance i => phaseActions host i (s.workers i).phase (s.world i)
  | _ => []

/-- The process has ended because there was no descriptor left for a file. -/
def ProcessFiles.Full (limit : ℕ) (s : ProcessFiles n) : Prop :=
  s.exited = true ∧ limit ≤ s.table.lowest

end Actions

/-- What a worker in this phase does with the files of the process. -/
def Phase.UsesFiles (p : Phase) (files : FilesPhase) : Prop :=
  match p with
  | .running job _ num _ _ => ∃ io, files = .testing (job.testFiles num) io
  | .blocked => True
  | _ => files = .idle

/-- The record of a worker and its files in the process, which have other numbers. -/
structure SameFiles (p : Phase) (l : Ledger) (w : FilesWorker) : Prop where
  phase : p.UsesFiles w.phase
  files : w.fileManager.files.map File.filepath = l.fileManager.files.map File.filepath
  isClosed : l.fileManager.isClosed = l.fileManager.files.isEmpty

theorem usesFiles_nextTest (job : Job) (rounds num : ℕ) (results : Results) (files : FilesPhase) :
    (Phase.nextTest job rounds num results).UsesFiles files ↔ files = .idle := by
  cases rounds <;> rfl

theorem closeAll_files {w : World} (h : w.fileManager.isClosed = w.fileManager.files.isEmpty) :
    w.closeAll.fileManager.files = [] ∧ w.closeAll.fileManager.isClosed = true := by
  unfold World.closeAll
  split_ifs with hclosed
  · rw [hclosed] at h
    exact ⟨List.isEmpty_iff.mp h.symm, hclosed⟩
  · exact ⟨rfl, rfl⟩

section Calls
variable {n : ℕ} {limit : ℕ} {i : Fin n}

/-- The constructor of `File` takes the lowest number, or there is none left. -/
theorem openFile_attempts {s : ProcessFiles n} {test : TestFiles} {opened : List File}
    {filepath : DataPath} (halive : s.exited = false)
    (hphase : (s.workers i).phase = .opening test opened)
    (hpath : test.paths[opened.length]? = some filepath) :
    Attempts (ProcessFiles.Steps limit) (ProcessFiles.Full limit) s [.openFile i false] fun t =>
      t.exited = false ∧ ∃ file : File, file.filepath = filepath ∧
        t.workers = Function.update s.workers i
          { s.workers i with phase := .opening test (opened ++ [file]) } := by
  -- the lowest free descriptor is below the limit, or `open` fails and the process exits
  by_cases hlimit : limit ≤ s.table.lowest
  · have hstep : ProcessFiles.Steps limit s (.openFile i false) { s with exited := true } := by
      refine ⟨halive, test, opened, filepath, hphase, hpath, ?_⟩
      rw [if_pos (Or.inr hlimit)]
    exact .single hstep (Or.inl ⟨rfl, hlimit⟩)
  · have hstep : ProcessFiles.Steps limit s (.openFile i false)
        { s.set i { s.workers i with
            phase := .opening test (opened ++ [⟨filepath, s.table.lowest⟩]) } with
          table := s.table.put s.table.lowest (.testFile i filepath) } := by
      refine ⟨halive, test, opened, filepath, hphase, hpath, ?_⟩
      rw [if_neg (by simpa using hlimit)]
    exact .single hstep (Or.inr ⟨halive, _, rfl, rfl⟩)

theorem openFiles_attempts {test : TestFiles} (rest : List DataPath) (opened : List File)
    (s : ProcessFiles n) (halive : s.exited = false)
    (hphase : (s.workers i).phase = .opening test opened)
    (hrest : test.paths.drop opened.length = rest) :
    Attempts (ProcessFiles.Steps limit) (ProcessFiles.Full limit) s
      (rest.map fun _ => .openFile i false) fun t =>
        t.exited = false ∧ ∃ files : List File,
          files.map File.filepath = opened.map File.filepath ++ rest ∧
          t.workers = Function.update s.workers i
            { s.workers i with phase := .opening test files } := by
  -- by induction on the paths of the test that are not open yet
  induction rest generalizing opened s with
  | nil =>
    apply Attempts.done
    refine ⟨halive, opened, by simp, ?_⟩
    rw [← hphase, Function.update_eq_self]
  | cons filepath rest ih =>
    have hpath : test.paths[opened.length]? = some filepath := by
      have hhead := congrArg (fun l => l[0]?) hrest
      simpa using hhead
    rw [List.map_cons, ← List.singleton_append]
    refine (openFile_attempts halive hphase hpath).append ?_
    rintro t ⟨halive', file, rfl, hworkers⟩
    have hself : t.workers i = { s.workers i with phase := .opening test (opened ++ [file]) } := by
      rw [hworkers, Function.update_self]
    have hdrop : test.paths.drop (opened ++ [file]).length = rest := by
      rw [List.length_append, List.length_singleton, ← List.drop_drop, hrest]
      rfl
    refine (ih (opened ++ [file]) t halive' (by rw [hself]) hdrop).mono ?_
    rintro made u _ ⟨halive'', files, hfiles, hworkers'⟩
    refine ⟨halive'', files, ?_, ?_⟩
    · rw [hfiles, List.map_append, List.append_assoc]
      rfl
    · rw [hworkers', hself, hworkers, Function.update_idem]

/-- `getFileno` of an idle worker adds the three files of the test to those it has. -/
theorem getFileno_attempts {s : ProcessFiles n} (halive : s.exited = false)
    (hidle : (s.workers i).phase = .idle) (test : TestFiles) :
    Attempts (ProcessFiles.Steps limit) (ProcessFiles.Full limit) s (getFilenoActions i test)
      fun t => t.exited = false ∧ ∃ w : FilesWorker,
        t.workers = Function.update s.workers i w ∧ (∃ io, w.phase = .testing test io) ∧
        w.fileManager.files.map File.filepath =
          (s.workers i).fileManager.files.map File.filepath ++ test.paths := by
  let begun := s.set i { s.workers i with phase := .opening test [] }
  have hself : begun.workers i = { s.workers i with phase := .opening test [] } :=
    Function.update_self _ _ _
  have hbegin : ProcessFiles.Steps limit s (.getFileno i test) begun := ⟨halive, hidle, rfl⟩
  have hopen : Attempts (ProcessFiles.Steps limit) (ProcessFiles.Full limit) begun _ _ :=
    openFiles_attempts test.paths [] begun halive (by rw [hself]) rfl
  refine (Attempts.cons hbegin hopen).append ?_
  rintro t ⟨halive', files, hfiles, hworkers⟩
  -- `getFileno` has opened three files
  have hlength : files.length = 3 := by
    have hlen := congrArg List.length hfiles
    simpa [TestFiles.paths] using hlen
  obtain ⟨input, output, user, rfl⟩ := List.length_eq_three.mp hlength
  have hphase : t.workers i =
      { s.workers i with phase := .opening test [input, output, user] } := by
    rw [hworkers, hself, Function.update_self]
  let testing : FilesWorker :=
    { phase := .testing test ⟨input.fd, output.fd, user.fd⟩
      fileManager :=
        (((s.workers i).fileManager.pushBack input).pushBack output).pushBack user }
  have hpush : ProcessFiles.Steps limit t (.pushBack i) (t.set i testing) := by
    refine ⟨halive', test, input, output, user, by rw [hphase], ?_⟩
    rw [hphase]
  refine .single hpush (Or.inr ⟨halive', testing, ?_, ⟨_, rfl⟩, ?_⟩)
  · simp only [ProcessFiles.set, hworkers, begun, Function.update_idem]
  · simp only [testing, FileManger.pushBack, List.map_append, List.append_assoc]
    exact congrArg _ hfiles

theorem deleteFiles_attempts (rest : List File) (s : ProcessFiles n) (halive : s.exited = false)
    (hphase : (s.workers i).phase = .closing rest) :
    Attempts (ProcessFiles.Steps limit) (ProcessFiles.Full limit) s
      (List.replicate rest.length (.deleteFile i)) fun t =>
        t.exited = false ∧
          t.workers = Function.update s.workers i { s.workers i with phase := .closing [] } := by
  -- by induction on the files of the `FileManger` that are still open
  induction rest generalizing s with
  | nil =>
    apply Attempts.done
    rw [← hphase, Function.update_eq_self]
    exact ⟨halive, rfl⟩
  | cons file rest ih =>
    let deleted : ProcessFiles n := { s.set i { s.workers i with phase := .closing rest } with
      table := s.table.close file.fd }
    have hself : deleted.workers i = { s.workers i with phase := .closing rest } :=
      Function.update_self _ _ _
    have hstep : ProcessFiles.Steps limit s (.deleteFile i) deleted :=
      ⟨halive, file, rest, hphase, rfl⟩
    refine Attempts.cons hstep ((ih deleted halive (by rw [hself])).mono ?_)
    rintro made t _ ⟨halive', hworkers⟩
    refine ⟨halive', ?_⟩
    rw [hworkers, hself]
    exact Function.update_idem _ _ _

theorem closeAll_attempts {s : ProcessFiles n} {test : TestFiles} {io : IOFileno}
    (halive : s.exited = false) (hphase : (s.workers i).phase = .testing test io) :
    Attempts (ProcessFiles.Steps limit) (ProcessFiles.Full limit) s
      (closeAllActions i (s.workers i).fileManager.files.length) fun t =>
        t.exited = false ∧ t.workers = Function.update s.workers i {} := by
  -- `execute` returns true, every file on record is closed, and the worker is through
  let closing := s.set i { phase := .closing (s.workers i).fileManager.files }
  have hself : closing.workers i = { phase := .closing (s.workers i).fileManager.files } :=
    Function.update_self _ _ _
  have hpass : ProcessFiles.Steps limit s (.passed i) closing := ⟨halive, test, io, hphase, rfl⟩
  have hdelete : Attempts (ProcessFiles.Steps limit) (ProcessFiles.Full limit) closing _ _ :=
    deleteFiles_attempts (s.workers i).fileManager.files closing halive (by rw [hself])
  refine (Attempts.cons hpass hdelete).append ?_
  rintro t ⟨halive', hworkers⟩
  have hself' : t.workers i = { phase := .closing [] } := by
    rw [hworkers, Function.update_self, hself]
  have hclosed : ProcessFiles.Steps limit t (.closed i)
      (t.set i { t.workers i with phase := .idle }) :=
    ⟨halive', by rw [hself'], rfl⟩
  refine .single hclosed (Or.inr ⟨halive', ?_⟩)
  simp only [ProcessFiles.set, hself', hworkers, closing, Function.update_idem]

end Calls

section Worker
variable {n : ℕ} {limit : ℕ} {host : Host} {i : Fin n}

/-- A call of a worker that returns keeps its record true to the process. -/
theorem advances_files {p p' : Phase} {w w' : World} (h : Advances host p w p' w')
    {f : ProcessFiles n} (halive : f.exited = false) (hf : SameFiles p w.toLedger (f.workers i)) :
    Attempts (ProcessFiles.Steps limit) (ProcessFiles.Full limit) f (phaseActions host i p w)
      fun g => g.exited = false ∧ ∃ y, g.workers = Function.update f.workers i y ∧
        SameFiles p' w'.toLedger y := by
  -- a call that touches no file
  have hquiet : ∀ q : Phase, (∀ files, q.UsesFiles files ↔ files = .idle) →
      (f.workers i).phase = .idle → ∃ y, f.workers = Function.update f.workers i y ∧
        SameFiles q w.toLedger y := by
    intro q hq hidle
    exact ⟨f.workers i, (Function.update_eq_self _ _).symm, (hq _).mpr hidle, hf.files, hf.isClosed⟩
  cases h with
  | opened job rounds num rightout results w hopen =>
    have hactions : phaseActions host i (.opening job rounds num results) w =
        getFilenoActions i (job.testFiles num) := by
      simp only [phaseActions, getFileno_open job.conf num w rightout hopen]
    rw [hactions]
    refine (getFileno_attempts halive hf.phase (job.testFiles num)).mono ?_
    rintro made g _ ⟨halive', y, hworkers, hphase, hfiles⟩
    refine ⟨halive', y, hworkers, hphase, ?_, ?_⟩
    · rw [hfiles, hf.files]
      simp [World.withTestFiles, TestFiles.paths, Job.testFiles]
    · simp [World.withTestFiles]
  | passed job rounds num t results w hrun hpass =>
    obtain ⟨io, hphase⟩ := hf.phase
    have hlength : w.fileManager.files.length = (f.workers i).fileManager.files.length := by
      have hlen := congrArg List.length hf.files
      simpa using hlen.symm
    have hactions : phaseActions host i (.running job rounds num t.rightout results) w =
        closeAllActions i (f.workers i).fileManager.files.length := by
      have hexec := executeTest_is host job.judger job.conf job.tools num t results w hrun
      simp only [phaseActions, hexec, hpass, decide_true, hlength]
    rw [hactions]
    have hclosed := closeAll_files
      (w := w.afterRun host job.judger job.conf job.tools num) hf.isClosed
    refine (closeAll_attempts halive hphase).mono ?_
    rintro made g _ ⟨halive', hworkers⟩
    refine ⟨halive', {}, hworkers, (usesFiles_nextTest job _ _ _ _).mpr rfl, ?_, ?_⟩
    · rw [hclosed.1]
    · rw [hclosed.1, hclosed.2, List.isEmpty_nil]
  | failed job rounds num t results w hrun hfail =>
    obtain ⟨io, hphase⟩ := hf.phase
    have hactions : phaseActions host i (.running job rounds num t.rightout results) w =
        [.failed i] := by
      have hexec := executeTest_is host job.judger job.conf job.tools num t results w hrun
      simp only [phaseActions, hexec, hfail, decide_false]
    rw [hactions]
    have hstep : ProcessFiles.Steps limit f (.failed i)
        (f.set i { f.workers i with phase := .idle }) := ⟨halive, _, io, hphase, rfl⟩
    exact .single hstep (Or.inr ⟨halive, _, rfl, rfl, hf.files, hf.isClosed⟩)
  | compiled job w hok =>
    exact .done ⟨halive, hquiet _ (usesFiles_nextTest job _ _ _) hf.phase⟩
  | refused | unsupported | built | stored | rejected | cleaned =>
    exact .done ⟨halive, hquiet _ (fun _ => Iff.rfl) hf.phase⟩

theorem phaseActions_error {p : Phase} {w : World} {e : Abort}
    (h : advance host p w = .error e) : phaseActions host i p w = [] := by
  cases p with
  | opening job rounds num results =>
    cases hget : getFileno job.conf num w with
    | error e => simp [phaseActions, hget]
    | ok out => simp [advance, hget] at h
  | running job rounds num rightout results =>
    cases hexec : executeTest host job.judger job.conf job.tools num rightout results w with
    | error e => simp [phaseActions, hexec]
    | ok out =>
      obtain ⟨again, results', w'⟩ := out
      cases again <;> simp [advance, hexec] at h
  | _ => rfl

end Worker

section Pool
variable {n : ℕ} {limit : ℕ} {host : Host} {json : Json.Codec}

structure FilesMatch (s : Server n) (f : ProcessFiles n) : Prop where
  alive : f.exited = false
  same : ∀ i, SameFiles (s.workers i).phase (s.workers i).ledger (f.workers i)

theorem started_match {s : Server n} {f : ProcessFiles n} (hs : s.Started) (hf : f.Started) :
    FilesMatch s f := by
  refine ⟨hf.1, ?_⟩
  intro i
  rw [hs.2 i, hf.2 i]
  exact ⟨rfl, rfl, rfl⟩

/-- A step of one worker, and what it does to its own files. -/
theorem match_own {s t : Server n} {a : Action n} {f g : ProcessFiles n} {y : FilesWorker}
    (hmatch : FilesMatch s f) (hstep : Server.Steps host json s a t) (halive : g.exited = false)
    (hworkers : g.workers = Function.update f.workers a.worker y)
    (hown : SameFiles (t.workers a.worker).phase (t.workers a.worker).ledger y) :
    FilesMatch t g := by
  refine ⟨halive, ?_⟩
  intro j
  rw [hworkers]
  by_cases hj : j = a.worker
  · rw [hj, Function.update_self]
    exact hown
  · rw [Function.update_of_ne hj, Server.step_other hstep hj]
    exact hmatch.same j

theorem match_quiet {s t : Server n} {a : Action n} {f : ProcessFiles n}
    (hmatch : FilesMatch s f) (hstep : Server.Steps host json s a t)
    (hown : SameFiles (t.workers a.worker).phase (t.workers a.worker).ledger
      (f.workers a.worker)) : FilesMatch t f :=
  match_own hmatch hstep hmatch.alive (Function.update_eq_self _ _).symm hown

theorem abort_same {s : Server n} {i : Fin n} {w : FilesWorker} (e : Abort)
    (h : SameFiles (s.workers i).phase (s.workers i).ledger w) :
    SameFiles ((s.abort i e).workers i).phase ((s.abort i e).workers i).ledger w := by
  unfold Server.abort
  split_ifs
  · exact h
  · rw [Server.modify_self]
    exact ⟨trivial, h.files, h.isClosed⟩

theorem files_step {s t : Server n} {a : Action n} {f : ProcessFiles n} (hmatch : FilesMatch s f)
    (hstep : Server.Steps host json s a t) :
    Attempts (ProcessFiles.Steps limit) (ProcessFiles.Full limit) f (s.fileActions host a)
      (FilesMatch t) := by
  have hsame := hmatch.same a.worker
  obtain ⟨_, hcases⟩ := Server.step_cases hstep
  cases hcases with
  | advanced i p w hphase hadv =>
    have hadvances := advances_of_advance hphase hadv
    refine (advances_files hadvances hmatch.alive hsame).mono ?_
    rintro made g _ ⟨halive, y, hworkers, hown⟩
    apply match_own hmatch hstep halive hworkers
    simpa [Action.worker] using hown
  -- a task that is broken off makes no call on the table of descriptors
  | failed i e hphase hadv =>
    have hactions : s.fileActions host (.advance i) = [] := phaseActions_error hadv
    rw [hactions]
    exact .done (match_quiet hmatch hstep (abort_same e hsame))
  | undecoded i msg tools e hphase _ =>
    exact .done (match_quiet hmatch hstep (abort_same e hsame))
  -- outside a task no test file is open
  | decoded i msg tools conf hphase _ =>
    have hidle : (f.workers i).phase = .idle := by
      have huses := hsame.phase
      simpa [Action.worker, hphase, Phase.UsesFiles] using huses
    apply Attempts.done
    apply match_quiet hmatch hstep
    simp only [Server.decode, Action.worker, Server.modify_self]
    exact ⟨hidle, hsame.files, hsame.isClosed⟩
  | answered i ok results hphase =>
    have hidle : (f.workers i).phase = .idle := by
      have huses := hsame.phase
      simpa [Action.worker, hphase, Phase.UsesFiles] using huses
    apply Attempts.done
    apply match_quiet hmatch hstep
    simp only [Server.answer, Action.worker, Server.modify_self]
    cases ok <;> exact ⟨hidle, hsame.files, hsame.isClosed⟩
  | unsent i ok results hphase =>
    have hidle : (f.workers i).phase = .idle := by
      have huses := hsame.phase
      simpa [Action.worker, hphase, Phase.UsesFiles] using huses
    apply Attempts.done
    apply match_quiet hmatch hstep
    simp only [Action.worker, Server.modify_self]
    exact ⟨hidle, hsame.files, hsame.isClosed⟩
  | strayed i fs => exact .done (match_quiet hmatch hstep hsame)

/-- The records of the pool are true to the process, and the children get the files of their own
tests. -/
structure FilesTrue (s : Server n) (f : ProcessFiles n) : Prop where
  alive : f.exited = false
  /-- A file that a worker has on record is open. -/
  recorded : ∀ i, ∀ file ∈ (s.workers i).ledger.fileManager.files,
    ∃ fd, f.table.get fd = some (.testFile i file.filepath)
  children : ∀ i job rounds num rightout results,
    (s.workers i).phase = .running job rounds num rightout results →
    ∃ io child, (f.workers i).phase = .testing (job.testFiles num) io ∧
      setIOTable io f.table = some child ∧
      child.get 0 = some (.testFile i (.rightInput job.conf.programId num)) ∧
      child.get 1 = some (.testFile i (.userOutput job.conf.runId num))

theorem match_true {start f : ProcessFiles n} {s : Server n}
    (hf : FilesInvariant limit start.table f) (hstd : StdStreams start.table)
    (hmatch : FilesMatch s f) : FilesTrue s f := by
  refine ⟨hmatch.alive, ?_, ?_⟩
  · intro i file hfile
    -- the record of the pool names the same files, and those are open in the table
    have hpath := List.mem_map_of_mem (f := File.filepath) hfile
    rw [← (hmatch.same i).files] at hpath
    obtain ⟨file', hfile', hpath⟩ := List.mem_map.mp hpath
    have hheld : file' ∈ f.held i := List.mem_append_left _ hfile'
    refine ⟨file'.fd, ?_⟩
    rw [hf.owned.owned i file' hheld, hpath]
  · intro i job rounds num rightout results hphase
    have huses := (hmatch.same i).phase
    rw [hphase] at huses
    obtain ⟨io, htesting⟩ := huses
    obtain ⟨child, hchild, hinput, huser, _⟩ := setIOTable_testing hf hstd htesting
    exact ⟨io, child, htesting, hchild, hinput, huser⟩

/-- Whatever the workers do and in whatever order, the table of the process goes through the calls
that they make, until there is no descriptor left and the process ends; up to there every file
that a worker has on record is open, and every child reads the input of its own test and writes
its own output file. -/
theorem pool_files_true {t₀ : Table (OpenFile n)} {inFile outFile : OpenFile n}
    (hinFile : inFile.Fixed) (hin : t₀.get 0 = some inFile) (houtFile : outFile.Fixed)
    (hout : t₀.get 1 = some outFile) (daemon : Bool) {s t : Server n} {acts : List (Action n)}
    {events : List (FilesAction n)} (hs : s.Started)
    (hobs : Observed (Server.Steps host json) (Server.fileActions host) s acts events t)
    {f : ProcessFiles n} (hf : f.Started) (htable : f.table = mainTable daemon t₀) :
    Attempts (ProcessFiles.Steps limit) (ProcessFiles.Full limit) f events (FilesTrue t) := by
  have hstd := mainTable_std hinFile hin houtFile hout daemon
  rw [← htable] at hstd
  have hmatch : Attempts (ProcessFiles.Steps limit) (ProcessFiles.Full limit) f events
      (FilesMatch t) :=
    hobs.attempts FilesMatch (started_match hs hf) fun _ _ _ _ h hstep => files_step h hstep
  refine hmatch.mono ?_
  intro made g hrun hg
  exact match_true (filesInvariant_run hf hrun) hstd hg

end Pool

section WrongAnswer

theorem pool_files_true_wrongAnswer : ∃ acts events t,
    Observed (Server.Steps .standard rubyCodec) (Server.fileActions .standard) wrongAnswerServer
      acts events t ∧
    (t.workers sole).ledger.fileManager.files ≠ [] ∧
    Attempts (ProcessFiles.Steps 1024) (ProcessFiles.Full 1024) shellFiles events
      (FilesTrue t) := by
  obtain ⟨acts, t, hrun, _, hledger⟩ := wrongAnswer_replied
  obtain ⟨events, hobs⟩ := hrun.observed (Server.fileActions .standard)
  have hshell : ∀ fd, (OpenFile.inherited fd : OpenFile 1).Fixed := fun _ => trivial
  refine ⟨acts, events, t, hobs, ?_, ?_⟩
  · rw [hledger]
    exact wrongAnswer_leaks
  · exact pool_files_true (hshell 0) rfl (hshell 1) rfl false ⟨rfl, fun _ => rfl⟩ hobs
      shellFiles_started rfl

end WrongAnswer

end OnlineJudge
