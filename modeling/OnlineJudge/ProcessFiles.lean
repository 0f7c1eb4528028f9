import OnlineJudge.DescriptorTable
import OnlineJudge.Pool

/-! The descriptors of the server process. All workers open their files in one table, in which a
number that one of them closes is given to the next, and every child starts with a copy of it. -/
namespace OnlineJudge
open Transition DescriptorTable

/-- What a descriptor refers to; `other` is a socket, a log or a stream. -/
inductive OpenFile (n : ℕ)
  | inherited (fd : ℕ)
  | devNull
  | testFile (worker : Fin n) (filepath : DataPath)
  | other
  deriving DecidableEq

/-- The arguments of `getFileno`. -/
structure TestFiles where
  programId : UInt32
  runId : UInt32
  num : ℕ
  deriving DecidableEq

/-- The files that `getFileno` opens, in order. -/
def TestFiles.paths (test : TestFiles) : List DataPath :=
  [.rightInput test.programId test.num, .rightOutput test.programId test.num,
    .userOutput test.runId test.num]

inductive FilesPhase
  | idle
  /-- `getFileno` has opened these files, which are not yet in `file_manager_`. -/
  | opening (test : TestFiles) (opened : List File)
  | testing (test : TestFiles) (ioFileno : IOFileno)
  /-- `closeAll` has still to delete these files. -/
  | closing (rest : List File)

/-- A worker with its files, whose numbers are those of the kernel. -/
structure FilesWorker where
  phase : FilesPhase := .idle
  fileManager : FileManger := {}

/-- The files that the worker has opened and not closed. -/
def FilesWorker.held (w : FilesWorker) : List File :=
  w.fileManager.files ++
    match w.phase with
    | .opening _ opened => opened
    | .closing rest => rest
    | _ => []

structure ProcessFiles (n : ℕ) where
  table : Table (OpenFile n)
  workers : Fin n → FilesWorker
  exited : Bool := false

inductive FilesAction (n : ℕ)
  | getFileno (i : Fin n) (test : TestFiles)
  /-- The constructor of `File`; `fails` where the path cannot be opened. -/
  | openFile (i : Fin n) (fails : Bool)
  | pushBack (i : Fin n)
  /-- `execute` has returned true, and `closeAll` is called. -/
  | passed (i : Fin n)
  /-- `execute` has returned false. -/
  | failed (i : Fin n)
  /-- The destructor of `File`. -/
  | deleteFile (i : Fin n)
  | closed (i : Fin n)
  | otherOpens
  | otherCloses (fd : ℕ)

namespace ProcessFiles
variable {n : ℕ}

def set (s : ProcessFiles n) (i : Fin n) (w : FilesWorker) : ProcessFiles n :=
  { s with workers := Function.update s.workers i w }

/-- `limit` is the number of descriptors that a process may have. With no more of them `open`
fails, and `printError` exits. -/
def Steps (limit : ℕ) (s : ProcessFiles n) (a : FilesAction n) (t : ProcessFiles n) : Prop :=
  s.exited = false ∧
  match a with
  | .getFileno i test => (s.workers i).phase = .idle ∧
      t = s.set i { s.workers i with phase := .opening test [] }
  | .openFile i fails => ∃ test opened filepath, (s.workers i).phase = .opening test opened ∧
      test.paths[opened.length]? = some filepath ∧
      t = if fails = true ∨ limit ≤ s.table.lowest then { s with exited := true }
        else
          let opened := opened ++ [⟨filepath, s.table.lowest⟩]
          { s.set i { s.workers i with phase := .opening test opened } with
            table := s.table.put s.table.lowest (.testFile i filepath) }
  | .pushBack i => ∃ test input output user,
      (s.workers i).phase = .opening test [input, output, user] ∧
      t = s.set i
        { phase := .testing test ⟨input.fd, output.fd, user.fd⟩
          fileManager :=
            (((s.workers i).fileManager.pushBack input).pushBack output).pushBack user }
  | .passed i => ∃ test io, (s.workers i).phase = .testing test io ∧
      t = s.set i { phase := .closing (s.workers i).fileManager.files }
  | .failed i => ∃ test io, (s.workers i).phase = .testing test io ∧
      t = s.set i { s.workers i with phase := .idle }
  | .deleteFile i => ∃ file rest, (s.workers i).phase = .closing (file :: rest) ∧
      t = { s.set i { s.workers i with phase := .closing rest } with
        table := s.table.close file.fd }
  | .closed i => (s.workers i).phase = .closing [] ∧
      t = s.set i { s.workers i with phase := .idle }
  | .otherOpens => t = { s with table := s.table.put s.table.lowest .other }
  | .otherCloses fd => s.table.get fd = some .other ∧ t = { s with table := s.table.close fd }

def held (s : ProcessFiles n) (i : Fin n) : List File := (s.workers i).held

/-- No worker has begun. -/
def Started (s : ProcessFiles n) : Prop := s.exited = false ∧ ∀ i, s.workers i = {}

end ProcessFiles

section Owned
variable {n : ℕ} {limit : ℕ}

/-- What a worker holds is open under its number, and each of its files has its own number. -/
structure Owned (limit : ℕ) (table : Table (OpenFile n)) (held : Fin n → List File) : Prop where
  owned : ∀ i, ∀ file ∈ held i, table.get file.fd = some (.testFile i file.filepath)
  distinct : ∀ i, ((held i).map File.fd).Nodup
  small : ∀ i, ∀ file ∈ held i, file.fd < limit

variable {table : Table (OpenFile n)} {held : Fin n → List File}

theorem Owned.opens (h : Owned limit table held) (hlimit : table.lowest < limit) (i : Fin n)
    (filepath : DataPath) :
    Owned limit (table.put table.lowest (.testFile i filepath))
      (Function.update held i (held i ++ [⟨filepath, table.lowest⟩])) := by
  -- the files that were held before keep their numbers
  have hkept : ∀ j, ∀ file ∈ held j,
      (table.put table.lowest (.testFile i filepath)).get file.fd =
        some (.testFile j file.filepath) := by
    intro j file hfile
    exact Table.openFile_get_of_some (h.owned j file hfile) _
  have hfresh : table.lowest ∉ (held i).map File.fd := by
    intro hmem
    obtain ⟨file, hfile, hfd⟩ := List.mem_map.mp hmem
    exact Table.ne_lowest (h.owned i file hfile) hfd
  constructor
  · intro j file hfile
    by_cases hj : j = i
    · subst hj
      rw [Function.update_self] at hfile
      rcases List.mem_append.mp hfile with hold | hnew
      · exact hkept j file hold
      · rw [List.mem_singleton.mp hnew]
        exact table.put_get_self _ _
    · rw [Function.update_of_ne hj] at hfile
      exact hkept j file hfile
  · intro j
    by_cases hj : j = i
    · subst hj
      rw [Function.update_self, List.map_append, List.map_singleton]
      apply List.Nodup.append (h.distinct j) (List.nodup_singleton _)
      simpa using hfresh
    · rw [Function.update_of_ne hj]
      exact h.distinct j
  · intro j file hfile
    by_cases hj : j = i
    · subst hj
      rw [Function.update_self] at hfile
      rcases List.mem_append.mp hfile with hold | hnew
      · exact h.small j file hold
      · rw [List.mem_singleton.mp hnew]
        exact hlimit
    · rw [Function.update_of_ne hj] at hfile
      exact h.small j file hfile

theorem Owned.closes (h : Owned limit table held) {i : Fin n} {before after : List File}
    {file : File} (hheld : held i = before ++ file :: after) :
    Owned limit (table.close file.fd) (Function.update held i (before ++ after)) := by
  have hmem : file ∈ held i := by
    rw [hheld]
    simp
  have hfile := h.owned i file hmem
  have hsub : (before ++ after).Sublist (held i) := by
    rw [hheld]
    exact List.Sublist.append (List.Sublist.refl _) (List.sublist_cons_self _ _)
  -- no other file that is held has this number
  have hother : ∀ j, ∀ file' ∈ Function.update held i (before ++ after) j,
      file' ∈ held j ∧ file'.fd ≠ file.fd := by
    intro j file' hfile'
    by_cases hj : j = i
    · subst hj
      rw [Function.update_self] at hfile'
      refine ⟨hsub.subset hfile', ?_⟩
      have hnodup := h.distinct j
      rw [hheld, List.map_append, List.map_cons] at hnodup
      have hnot := (List.nodup_middle.mp hnodup).notMem
      intro hsame
      apply hnot
      rw [← hsame, ← List.map_append]
      exact List.mem_map_of_mem hfile'
    · rw [Function.update_of_ne hj] at hfile'
      refine ⟨hfile', ?_⟩
      intro hsame
      have howner := h.owned j file' hfile'
      rw [hsame, hfile] at howner
      have hij : i = j := by simpa using (OpenFile.testFile.inj (Option.some.inj howner)).1
      exact hj hij.symm
  constructor
  · intro j file' hfile'
    obtain ⟨hold, hne⟩ := hother j file' hfile'
    rw [table.close_get_of_ne hne]
    exact h.owned j file' hold
  · intro j
    by_cases hj : j = i
    · subst hj
      rw [Function.update_self]
      exact (h.distinct j).sublist (hsub.map File.fd)
    · rw [Function.update_of_ne hj]
      exact h.distinct j
  · intro j file' hfile'
    exact h.small j file' (hother j file' hfile').1

theorem Owned.otherOpens (h : Owned limit table held) :
    Owned limit (table.put table.lowest .other) held := by
  refine ⟨?_, h.distinct, h.small⟩
  intro i file hfile
  exact Table.openFile_get_of_some (h.owned i file hfile) _

theorem Owned.otherCloses (h : Owned limit table held) {fd : ℕ}
    (hfd : table.get fd = some .other) : Owned limit (table.close fd) held := by
  refine ⟨?_, h.distinct, h.small⟩
  intro i file hfile
  have howner := h.owned i file hfile
  have hne : file.fd ≠ fd := by
    rintro rfl
    rw [hfd] at howner
    simp at howner
  rw [table.close_get_of_ne hne, howner]

end Owned

section Invariant
variable {n : ℕ} {limit : ℕ} {start : Table (OpenFile n)}

/-- What the process had before any worker opened a file; no thread closes it. -/
def OpenFile.Fixed : OpenFile n → Prop
  | inherited _ => True
  | devNull => True
  | testFile _ _ => False
  | other => False

/-- The files of a test stand at the end of `file_manager_`, in the order of `getFileno`. -/
def FilesWorker.Shaped (w : FilesWorker) : Prop :=
  match w.phase with
  | .opening test opened => opened.map File.filepath = test.paths.take opened.length
  | .testing test io => ∃ earlier, w.fileManager.files = earlier ++
      [⟨.rightInput test.programId test.num, io.rightInputFileno⟩,
        ⟨.rightOutput test.programId test.num, io.rightOutputFileno⟩,
        ⟨.userOutput test.runId test.num, io.userOutputFileno⟩]
  | _ => True

structure FilesInvariant (limit : ℕ) (start : Table (OpenFile n)) (s : ProcessFiles n) : Prop where
  owned : Owned limit s.table s.held
  shaped : ∀ i, (s.workers i).Shaped
  kept : ∀ fd f, f.Fixed → start.get fd = some f → s.table.get fd = some f

theorem started_filesInvariant {s : ProcessFiles n} (h : s.Started) :
    FilesInvariant limit s.table s := by
  have hheld : ∀ i, s.held i = [] := by
    intro i
    simp [ProcessFiles.held, FilesWorker.held, h.2 i]
  refine ⟨⟨?_, ?_, ?_⟩, ?_, fun fd f _ hfd => hfd⟩
  · simp [hheld]
  · simp [hheld]
  · simp [hheld]
  · intro i
    rw [h.2 i]
    trivial

theorem held_set (s : ProcessFiles n) (i : Fin n) (w : FilesWorker) :
    (s.set i w).held = Function.update s.held i w.held := by
  funext j
  by_cases hj : j = i
  · subst hj
    simp [ProcessFiles.held, ProcessFiles.set]
  · simp [ProcessFiles.held, ProcessFiles.set, Function.update_of_ne hj]

theorem held_update_same (s : ProcessFiles n) {i : Fin n} {files : List File}
    (h : files = s.held i) : Function.update s.held i files = s.held := by
  rw [h, Function.update_eq_self]

/-- A step of one worker that neither opens nor closes. -/
theorem filesInvariant_set {s : ProcessFiles n} (hs : FilesInvariant limit start s) (i : Fin n)
    {w : FilesWorker} (hheld : w.held = s.held i) (hw : w.Shaped) :
    FilesInvariant limit start (s.set i w) := by
  refine ⟨?_, ?_, hs.kept⟩
  · rw [held_set, held_update_same s hheld]
    exact hs.owned
  · intro j
    by_cases hj : j = i
    · subst hj
      simpa [ProcessFiles.set] using hw
    · simpa [ProcessFiles.set, Function.update_of_ne hj] using hs.shaped j

theorem filesInvariant_open {s : ProcessFiles n} (hs : FilesInvariant limit start s) (i : Fin n)
    {test : TestFiles} {opened : List File} {filepath : DataPath}
    (hphase : (s.workers i).phase = .opening test opened)
    (hpath : test.paths[opened.length]? = some filepath) (hlimit : s.table.lowest < limit) :
    FilesInvariant limit start
      { s.set i { s.workers i with
          phase := .opening test (opened ++ [⟨filepath, s.table.lowest⟩]) } with
        table := s.table.put s.table.lowest (.testFile i filepath) } := by
  have hopened := hs.shaped i
  simp only [FilesWorker.Shaped, hphase] at hopened
  have hheld : s.held i ++ [⟨filepath, s.table.lowest⟩] =
      ({ s.workers i with
        phase := .opening test (opened ++ [⟨filepath, s.table.lowest⟩]) } : FilesWorker).held := by
    simp [ProcessFiles.held, FilesWorker.held, hphase]
  refine ⟨?_, ?_, ?_⟩
  · have hopens := hs.owned.opens hlimit i filepath
    rw [hheld] at hopens
    have hsame := held_set s i { s.workers i with
      phase := .opening test (opened ++ [⟨filepath, s.table.lowest⟩]) }
    rw [← hsame] at hopens
    exact hopens
  · intro j
    by_cases hj : j = i
    · subst hj
      simp only [ProcessFiles.set, Function.update_self, FilesWorker.Shaped, List.map_append,
        List.map_singleton, List.length_append, List.length_singleton]
      rw [List.take_add_one, hpath, hopened]
      rfl
    · simpa [ProcessFiles.set, Function.update_of_ne hj] using hs.shaped j
  · intro fd f hfixed hfd
    exact Table.openFile_get_of_some (hs.kept fd f hfixed hfd) _

theorem filesInvariant_close {s : ProcessFiles n} (hs : FilesInvariant limit start s) (i : Fin n)
    {file : File} {rest : List File} (hphase : (s.workers i).phase = .closing (file :: rest)) :
    FilesInvariant limit start
      { s.set i { s.workers i with phase := .closing rest } with
        table := s.table.close file.fd } := by
  have hheld : s.held i = (s.workers i).fileManager.files ++ file :: rest := by
    simp [ProcessFiles.held, FilesWorker.held, hphase]
  -- the descriptor to be closed is still that of the test file
  have hfile : s.table.get file.fd = some (.testFile i file.filepath) := by
    apply hs.owned.owned
    simp [hheld]
  refine ⟨?_, ?_, ?_⟩
  · have hcloses := hs.owned.closes hheld
    have hsame := held_set s i { s.workers i with phase := .closing rest }
    have hafter : ({ s.workers i with phase := .closing rest } : FilesWorker).held =
        (s.workers i).fileManager.files ++ rest := rfl
    rw [hafter] at hsame
    rw [← hsame] at hcloses
    exact hcloses
  · intro j
    by_cases hj : j = i
    · subst hj
      simp [ProcessFiles.set, FilesWorker.Shaped]
    · simpa [ProcessFiles.set, Function.update_of_ne hj] using hs.shaped j
  · intro fd f hfixed hfd
    have hold := hs.kept fd f hfixed hfd
    have hne : fd ≠ file.fd := by
      rintro rfl
      rw [hfile] at hold
      obtain rfl := Option.some.inj hold
      exact hfixed
    exact (s.table.close_get_of_ne hne).trans hold

theorem filesInvariant_step {s t : ProcessFiles n} {a : FilesAction n}
    (hs : FilesInvariant limit start s) (h : ProcessFiles.Steps limit s a t) :
    FilesInvariant limit start t := by
  obtain ⟨_, h⟩ := h
  cases a with
  | getFileno i test =>
    obtain ⟨hphase, rfl⟩ := h
    apply filesInvariant_set hs i
    · simp [ProcessFiles.held, FilesWorker.held, hphase]
    · simp [FilesWorker.Shaped]
  | openFile i fails =>
    obtain ⟨test, opened, filepath, hphase, hpath, rfl⟩ := h
    split_ifs with hfull
    · exact ⟨hs.owned, hs.shaped, hs.kept⟩
    · have hlimit : s.table.lowest < limit := by
        by_contra hge
        exact hfull (Or.inr (by omega))
      exact filesInvariant_open hs i hphase hpath hlimit
  | pushBack i =>
    obtain ⟨test, input, output, user, hphase, rfl⟩ := h
    have hopened := hs.shaped i
    simp only [FilesWorker.Shaped, hphase] at hopened
    apply filesInvariant_set hs i
    · simp [ProcessFiles.held, FilesWorker.held, hphase, FileManger.pushBack]
    · obtain ⟨hinput, houtput, huser⟩ : input.filepath = .rightInput test.programId test.num ∧
          output.filepath = .rightOutput test.programId test.num ∧
          user.filepath = .userOutput test.runId test.num := by
        simpa [TestFiles.paths] using hopened
      refine ⟨(s.workers i).fileManager.files, ?_⟩
      simp [FileManger.pushBack, ← hinput, ← houtput, ← huser]
  | passed i =>
    obtain ⟨test, io, hphase, rfl⟩ := h
    apply filesInvariant_set hs i
    · simp [ProcessFiles.held, FilesWorker.held, hphase]
    · simp [FilesWorker.Shaped]
  | failed i =>
    obtain ⟨test, io, hphase, rfl⟩ := h
    apply filesInvariant_set hs i
    · simp [ProcessFiles.held, FilesWorker.held, hphase]
    · simp [FilesWorker.Shaped]
  | deleteFile i =>
    obtain ⟨file, rest, hphase, rfl⟩ := h
    exact filesInvariant_close hs i hphase
  | closed i =>
    obtain ⟨hphase, rfl⟩ := h
    apply filesInvariant_set hs i
    · simp [ProcessFiles.held, FilesWorker.held, hphase]
    · simp [FilesWorker.Shaped]
  | otherOpens =>
    obtain rfl : t = _ := h
    refine ⟨hs.owned.otherOpens, hs.shaped, ?_⟩
    intro fd f hfixed hfd
    exact Table.openFile_get_of_some (hs.kept fd f hfixed hfd) _
  | otherCloses fd =>
    obtain ⟨hother, rfl⟩ := h
    refine ⟨hs.owned.otherCloses hother, hs.shaped, ?_⟩
    intro fd' f hfixed hfd
    have hold := hs.kept fd' f hfixed hfd
    have hne : fd' ≠ fd := by
      rintro rfl
      rw [hother] at hold
      obtain rfl := Option.some.inj hold
      exact hfixed
    exact (s.table.close_get_of_ne hne).trans hold

theorem filesInvariant_run {s t : ProcessFiles n} {acts : List (FilesAction n)} (hs : s.Started)
    (hrun : Run (ProcessFiles.Steps limit) s acts t) : FilesInvariant limit s.table t :=
  hrun.invariant (FilesInvariant limit s.table) (started_filesInvariant hs)
    (fun _ _ _ hs h => filesInvariant_step hs h)

end Invariant

section Daemon
variable {n : ℕ}

/-- The bodies of `closeStdin` and `closeStdout`, which differ in the number. -/
def closeStd (std : ℕ) (t : Table (OpenFile n)) : Table (OpenFile n) :=
  let (fd, t) := t.openFile .devNull
  let t := t.close std
  let t := (t.dup2 fd std).getD t
  t.close fd

def closeStdin (t : Table (OpenFile n)) : Table (OpenFile n) := closeStd 0 t

def closeStdout (t : Table (OpenFile n)) : Table (OpenFile n) := closeStd 1 t

/-- The table of the process that `main` goes on in. -/
def mainTable (daemon : Bool) (t : Table (OpenFile n)) : Table (OpenFile n) :=
  if daemon then closeStdout (closeStdin t) else t

/-- A stream that is open is moved to `/dev/null`, and nothing else is touched. -/
theorem closeStd_get {t : Table (OpenFile n)} {std : ℕ} (h : t.get std ≠ none) (fd : ℕ) :
    (closeStd std t).get fd = if fd = std then some .devNull else t.get fd := by
  have hne : t.lowest ≠ std := by
    intro hsame
    rw [← hsame] at h
    exact h t.lowest_free
  -- `open`, `close(std)`, `dup2(fd, std)`, `close(fd)`
  let opened := (t.put t.lowest .devNull).close std
  have hopened : opened.get t.lowest = some .devNull := by
    rw [Table.close_get_of_ne _ hne]
    exact t.put_get_self _ _
  have hclose : closeStd std t = (opened.put std .devNull).close t.lowest := by
    simp only [closeStd, Table.openFile]
    rw [Table.dup2_get _ hopened]
    rfl
  rw [hclose]
  by_cases hstd : fd = std
  · subst hstd
    rw [Table.close_get_of_ne _ hne.symm, if_pos rfl]
    exact opened.put_get_self _ _
  · rw [if_neg hstd]
    by_cases hlow : fd = t.lowest
    · rw [hlow, Table.close_get_self, t.lowest_free]
    · rw [Table.close_get_of_ne _ hlow, opened.put_get_of_ne _ hstd,
        Table.close_get_of_ne _ hstd, t.put_get_of_ne _ hlow]

/-- Whether it is a daemon or not, the server has files on 0 and 1 when its caller had. -/
theorem mainTable_fixed {t : Table (OpenFile n)} {std : ℕ} {f : OpenFile n} (hf : f.Fixed)
    (hstd : t.get std = some f) (hin : t.get 0 ≠ none) (hout : t.get 1 ≠ none) (daemon : Bool) :
    ∃ g, g.Fixed ∧ (mainTable daemon t).get std = some g := by
  cases daemon with
  | false => exact ⟨f, hf, hstd⟩
  | true =>
    have hout' : (closeStdin t).get 1 ≠ none := by
      rw [closeStdin, closeStd_get hin, if_neg one_ne_zero]
      exact hout
    have hget : (mainTable true t).get std =
        if std = 1 then some .devNull else if std = 0 then some .devNull else t.get std := by
      rw [mainTable, if_pos rfl, closeStdout, closeStd_get hout', closeStdin, closeStd_get hin]
    rw [hget]
    split_ifs
    · exact ⟨.devNull, trivial, rfl⟩
    · exact ⟨.devNull, trivial, rfl⟩
    · exact ⟨f, hf, hstd⟩

/-- The standard streams of a process, which no thread of it closes. -/
structure StdStreams (t : Table (OpenFile n)) : Prop where
  stdin : ∃ f : OpenFile n, f.Fixed ∧ t.get 0 = some f
  stdout : ∃ f : OpenFile n, f.Fixed ∧ t.get 1 = some f

theorem mainTable_std {t : Table (OpenFile n)} {f g : OpenFile n} (hf : f.Fixed)
    (hin : t.get 0 = some f) (hg : g.Fixed) (hout : t.get 1 = some g) (daemon : Bool) :
    StdStreams (mainTable daemon t) := by
  have hin' : t.get 0 ≠ none := by simp [hin]
  have hout' : t.get 1 ≠ none := by simp [hout]
  constructor
  · exact mainTable_fixed hf hin hin' hout' daemon
  · exact mainTable_fixed hg hout hin' hout' daemon

end Daemon

section Child
variable {n : ℕ} {limit : ℕ}

/-- `SetIOEnv` on the copy of the table that the child starts with. No file is opened with
`O_CLOEXEC`, so this is also what `execvp` hands to the program. -/
def setIOTable (io : IOFileno) (t : Table (OpenFile n)) : Option (Table (OpenFile n)) := do
  let t ← t.dup2 io.rightInputFileno 0
  t.dup2 io.userOutputFileno 1

/-- The files of a test under way are open above the standard streams. -/
theorem testing_files {s t : ProcessFiles n} (ht : FilesInvariant limit s.table t)
    (hstd : StdStreams s.table) {i : Fin n} {test : TestFiles} {io : IOFileno}
    (hphase : (t.workers i).phase = .testing test io) :
    t.table.get io.rightInputFileno =
        some (.testFile i (.rightInput test.programId test.num)) ∧
      t.table.get io.rightOutputFileno =
        some (.testFile i (.rightOutput test.programId test.num)) ∧
      t.table.get io.userOutputFileno = some (.testFile i (.userOutput test.runId test.num)) ∧
      2 ≤ io.rightInputFileno ∧ 2 ≤ io.rightOutputFileno ∧ 2 ≤ io.userOutputFileno := by
  have hshaped := ht.shaped i
  simp only [FilesWorker.Shaped, hphase] at hshaped
  obtain ⟨earlier, hfiles⟩ := hshaped
  have howned := ht.owned.owned i
  have hheld : t.held i = (t.workers i).fileManager.files := by
    simp [ProcessFiles.held, FilesWorker.held, hphase]
  rw [hheld, hfiles] at howned
  -- a file of a test is neither of those that the process started with
  have hother : ∀ fd filepath, (∃ f : OpenFile n, f.Fixed ∧ s.table.get fd = some f) →
      t.table.get fd ≠ some (.testFile i filepath) := by
    rintro fd filepath ⟨f, hf, hstart⟩ hfd
    rw [ht.kept fd f hf hstart] at hfd
    obtain rfl := Option.some.inj hfd
    exact hf
  have habove : ∀ fd filepath, t.table.get fd = some (.testFile i filepath) → 2 ≤ fd := by
    intro fd filepath hfd
    by_contra hlt
    have hcases : fd = 0 ∨ fd = 1 := by omega
    rcases hcases with rfl | rfl
    · exact hother 0 filepath hstd.stdin hfd
    · exact hother 1 filepath hstd.stdout hfd
  have hinput := howned ⟨.rightInput test.programId test.num, io.rightInputFileno⟩ (by simp)
  have houtput := howned ⟨.rightOutput test.programId test.num, io.rightOutputFileno⟩ (by simp)
  have huser := howned ⟨.userOutput test.runId test.num, io.userOutputFileno⟩ (by simp)
  exact ⟨hinput, houtput, huser, habove _ _ hinput, habove _ _ houtput, habove _ _ huser⟩

/-- `SetIOEnv` succeeds for a test under way, and replaces only 0 and 1. -/
theorem setIOTable_testing {s t : ProcessFiles n} (ht : FilesInvariant limit s.table t)
    (hstd : StdStreams s.table) {i : Fin n} {test : TestFiles} {io : IOFileno}
    (hphase : (t.workers i).phase = .testing test io) :
    ∃ child, setIOTable io t.table = some child ∧
      child.get 0 = some (.testFile i (.rightInput test.programId test.num)) ∧
      child.get 1 = some (.testFile i (.userOutput test.runId test.num)) ∧
      ∀ fd, 2 ≤ fd → child.get fd = t.table.get fd := by
  -- `dup2` of the two files onto 0 and 1, which are not among the descriptors of the tests
  obtain ⟨hinput, _, huser, _, _, habove⟩ := testing_files ht hstd hphase
  let input := t.table.put 0 (.testFile i (.rightInput test.programId test.num))
  let child := input.put 1 (.testFile i (.userOutput test.runId test.num))
  have huser' : input.get io.userOutputFileno =
      some (.testFile i (.userOutput test.runId test.num)) := by
    rw [t.table.put_get_of_ne _ (by omega), huser]
  have hchild : setIOTable io t.table = some child := by
    simp only [setIOTable, Table.dup2_get _ hinput, Option.bind_eq_bind, Option.bind_some]
    exact input.dup2_get huser'
  refine ⟨child, hchild, ?_, input.put_get_self _ _, ?_⟩
  · rw [input.put_get_of_ne _ zero_ne_one]
    exact t.table.put_get_self _ _
  · intro fd hfd
    rw [input.put_get_of_ne _ (by omega), t.table.put_get_of_ne _ (by omega)]

/-- Whatever the other workers open and close meanwhile, the child of a test reads the input of
that test and writes into its own output file. It also has the expected output open, of its own
test and of every other that is under way. -/
theorem child_files {t₀ : Table (OpenFile n)} {f g : OpenFile n} (hf : f.Fixed)
    (hin : t₀.get 0 = some f) (hg : g.Fixed) (hout : t₀.get 1 = some g) (daemon : Bool)
    {s t : ProcessFiles n} {acts : List (FilesAction n)} (hs : s.Started)
    (htable : s.table = mainTable daemon t₀) (hrun : Run (ProcessFiles.Steps limit) s acts t)
    (i : Fin n) (test : TestFiles) (io : IOFileno)
    (hphase : (t.workers i).phase = .testing test io) :
    ∃ child, setIOTable io t.table = some child ∧
      child.get 0 = some (.testFile i (.rightInput test.programId test.num)) ∧
      child.get 1 = some (.testFile i (.userOutput test.runId test.num)) ∧
      ∀ j test' io', (t.workers j).phase = .testing test' io' → ∃ fd, 2 ≤ fd ∧
        child.get fd = some (.testFile j (.rightOutput test'.programId test'.num)) := by
  have ht := filesInvariant_run hs hrun
  have hstd := mainTable_std hf hin hg hout daemon
  rw [← htable] at hstd
  obtain ⟨child, hchild, hinput, huser, hrest⟩ := setIOTable_testing ht hstd hphase
  refine ⟨child, hchild, hinput, huser, ?_⟩
  intro j test' io' hphase'
  obtain ⟨_, houtput, _, _, habove, _⟩ := testing_files ht hstd hphase'
  exact ⟨io'.rightOutputFileno, habove, (hrest _ habove).trans houtput⟩

end Child

section Exhaustion
variable {n : ℕ} {limit : ℕ}

/-- All that the workers hold fits under the limit of the process. -/
theorem owned_length_le {table : Table (OpenFile n)} {held : Fin n → List File}
    (h : Owned limit table held) : ∑ i, (held i).length ≤ limit := by
  let numbers (i : Fin n) : Finset ℕ := ((held i).map File.fd).toFinset
  have hcard : ∀ i, (numbers i).card = (held i).length := by
    intro i
    rw [List.toFinset_card_of_nodup (h.distinct i), List.length_map]
  -- a number that two workers had would be open for both
  have hdisjoint : ∀ i ∈ Finset.univ, ∀ j ∈ Finset.univ, i ≠ j →
      Disjoint (numbers i) (numbers j) := by
    intro i _ j _ hij
    rw [Finset.disjoint_left]
    intro fd hi hj
    obtain ⟨file, hfile, rfl⟩ := List.mem_map.mp (List.mem_toFinset.mp hi)
    obtain ⟨file', hfile', hsame⟩ := List.mem_map.mp (List.mem_toFinset.mp hj)
    have howner := h.owned j file' hfile'
    rw [hsame, h.owned i file hfile] at howner
    exact hij (OpenFile.testFile.inj (Option.some.inj howner)).1
  have hsubset : Finset.univ.biUnion numbers ⊆ Finset.range limit := by
    intro fd hfd
    obtain ⟨i, _, hi⟩ := Finset.mem_biUnion.mp hfd
    obtain ⟨file, hfile, rfl⟩ := List.mem_map.mp (List.mem_toFinset.mp hi)
    exact Finset.mem_range.mpr (h.small i file hfile)
  calc ∑ i, (held i).length = ∑ i, (numbers i).card := by simp only [hcard]
    _ = (Finset.univ.biUnion numbers).card := (Finset.card_biUnion hdisjoint).symm
    _ ≤ (Finset.range limit).card := Finset.card_le_card hsubset
    _ = limit := Finset.card_range limit

def ProcessFiles.managed (s : ProcessFiles n) : ℕ :=
  ∑ i, (s.workers i).fileManager.files.length

/-- No test passes in this step. -/
def ProcessFiles.NonePasses (_ : ProcessFiles n) (a : FilesAction n) : Prop := ∀ i, a ≠ .passed i

def FilesAction.isPushBack : FilesAction n → Bool
  | .pushBack _ => true
  | _ => false

theorem managed_set (s : ProcessFiles n) (i : Fin n) (w : FilesWorker) :
    (s.set i w).managed+(s.workers i).fileManager.files.length =
      s.managed+w.fileManager.files.length := by
  have hsum := Finset.sum_update_of_mem (Finset.mem_univ i)
    (fun j => (s.workers j).fileManager.files.length) w.fileManager.files.length
  have hset : ∀ j, ((s.set i w).workers j).fileManager.files.length =
      Function.update (fun j => (s.workers j).fileManager.files.length) i
        w.fileManager.files.length j := by
    intro j
    by_cases hj : j = i
    · subst hj
      simp [ProcessFiles.set]
    · simp [ProcessFiles.set, Function.update_of_ne hj]
  have hrest := Finset.add_sum_erase Finset.univ
    (fun j => (s.workers j).fileManager.files.length) (Finset.mem_univ i)
  simp only [ProcessFiles.managed, hset, hsum, Finset.sdiff_singleton_eq_erase]
  omega

@[simp] theorem managed_setPhase (s : ProcessFiles n) (i : Fin n) (p : FilesPhase) :
    (s.set i { s.workers i with phase := p }).managed = s.managed :=
  Nat.add_right_cancel (managed_set s i { s.workers i with phase := p })

/-- The state after `pushBack`, where `file_manager_` has three files more. -/
theorem managed_pushBack (s : ProcessFiles n) (i : Fin n) (p : FilesPhase)
    (input output user : File) :
    (s.set i
      { phase := p
        fileManager :=
          (((s.workers i).fileManager.pushBack input).pushBack output).pushBack user }).managed =
      s.managed+3 := by
  have hset := managed_set s i
    { phase := p
      fileManager :=
        (((s.workers i).fileManager.pushBack input).pushBack output).pushBack user }
  simp only [FileManger.pushBack, List.length_append, List.length_singleton] at hset ⊢
  omega

/-- Only a test that is begun adds to `file_manager_`, and without one that passes nothing is
taken out of it. -/
theorem managed_step {s t : ProcessFiles n} {a : FilesAction n}
    (h : When ProcessFiles.NonePasses (ProcessFiles.Steps limit) s a t) :
    t.managed = s.managed+if a.isPushBack then 3 else 0 := by
  obtain ⟨hnone, _, h⟩ := h
  cases a with
  | getFileno i test =>
    obtain ⟨_, rfl⟩ := h
    exact managed_setPhase s i _
  | openFile i fails =>
    obtain ⟨test, opened, filepath, _, _, rfl⟩ := h
    change ProcessFiles.managed _ = s.managed
    split_ifs
    · rfl
    · exact managed_setPhase s i _
  -- only `pushBack` hands files to the `FileManger`, and three of them
  | pushBack i =>
    obtain ⟨test, input, output, user, _, rfl⟩ := h
    exact managed_pushBack s i _ input output user
  | passed i => exact absurd rfl (hnone i)
  | failed i =>
    obtain ⟨_, _, _, rfl⟩ := h
    exact managed_setPhase s i _
  | deleteFile i =>
    obtain ⟨file, rest, _, rfl⟩ := h
    exact managed_setPhase s i _
  | closed i =>
    obtain ⟨_, rfl⟩ := h
    exact managed_setPhase s i _
  | otherOpens =>
    obtain rfl : t = _ := h
    rfl
  | otherCloses fd =>
    obtain ⟨_, rfl⟩ := h
    rfl

/-- A worker that comes to its test holds three files that are not yet counted. -/
theorem managed_pushBack_le {start : Table (OpenFile n)} {s t : ProcessFiles n} {i : Fin n}
    (hs : FilesInvariant limit start s) (h : ProcessFiles.Steps limit s (.pushBack i) t) :
    s.managed+3 ≤ limit := by
  have ht := owned_length_le (filesInvariant_step hs h).owned
  obtain ⟨_, test, input, output, user, hphase, rfl⟩ := h
  have hle : ∀ u : ProcessFiles n, u.managed ≤ ∑ j, (u.held j).length := by
    intro u
    apply Finset.sum_le_sum
    intro j _
    simp [ProcessFiles.held, FilesWorker.held]
  calc s.managed+3 = _ := (managed_pushBack s i _ input output user).symm
    _ ≤ _ := hle _
    _ ≤ limit := ht

/-- While no test passes, the descriptors of all tests stay open, and there is no more than one
test for every three descriptors that the process may have. -/
theorem tests_bounded {s t : ProcessFiles n} {acts : List (FilesAction n)} (hs : s.Started)
    (hrun : Run (When ProcessFiles.NonePasses (ProcessFiles.Steps limit)) s acts t) :
    3*acts.countP FilesAction.isPushBack ≤ limit := by
  -- every test that is opened leaves three files behind, and the table has `limit` places
  have hle := hrun.measure_le (FilesInvariant limit s.table) (fun u => (limit-u.managed)/3)
    FilesAction.isPushBack (started_filesInvariant hs)
    (fun _ _ _ _ hs h => filesInvariant_step hs h.2) ?_ ?_
  · have hmeasure : (limit-s.managed)/3 ≤ limit/3 := Nat.div_le_div_right (Nat.sub_le _ _)
    omega
  · intro u a v _ hu h hpush
    have hmanaged := managed_step h
    rw [hpush] at hmanaged
    simp only [if_true] at hmanaged
    cases a with
    | pushBack i =>
      have hroom := managed_pushBack_le hu h.2
      omega
    | _ => simp [FilesAction.isPushBack] at hpush
  · intro u a v _ hu h hpush
    have hmanaged := managed_step h
    rw [hpush] at hmanaged
    simp only [Bool.false_eq_true, if_false, Nat.add_zero] at hmanaged
    rw [hmanaged]

end Exhaustion

section FirstTest

/-- What a shell gives to a process. -/
def shellTable : Table (OpenFile 1) where
  get fd := if fd < 3 then some (.inherited fd) else none
  bound := 3
  get_eq_none := by
    intro fd h
    rw [if_neg (by omega)]

def shellFiles : ProcessFiles 1 := { table := mainTable false shellTable, workers := fun _ => {} }

theorem shellFiles_started : shellFiles.Started := ⟨rfl, fun _ => rfl⟩

def firstTest : TestFiles := ⟨1, 7, 0⟩

/-- The worker opens the next of the three files. -/
def ProcessFiles.opened (s : ProcessFiles 1) (before : List File) (filepath : DataPath) :
    ProcessFiles 1 :=
  { s.set sole { s.workers sole with
      phase := .opening firstTest (before ++ [⟨filepath, s.table.lowest⟩]) } with
    table := s.table.put s.table.lowest (.testFile sole filepath) }

theorem opened_steps {s : ProcessFiles 1} {before : List File} {filepath : DataPath}
    (halive : s.exited = false) (hphase : (s.workers sole).phase = .opening firstTest before)
    (hpath : firstTest.paths[before.length]? = some filepath) (hbound : s.table.bound < 1024) :
    ProcessFiles.Steps 1024 s (.openFile sole false) (s.opened before filepath) := by
  refine ⟨halive, firstTest, before, filepath, hphase, hpath, ?_⟩
  have hroom : ¬ (false = true ∨ 1024 ≤ s.table.lowest) := by
    have hle := s.table.lowest_le_bound
    simp only [Bool.false_eq_true, false_or]
    omega
  rw [if_neg hroom]
  rfl

theorem opened_phase (s : ProcessFiles 1) (before : List File) (filepath : DataPath) :
    ((s.opened before filepath).workers sole).phase =
      .opening firstTest (before ++ [⟨filepath, s.table.lowest⟩]) := by
  simp [ProcessFiles.opened, ProcessFiles.set]

def begun : ProcessFiles 1 := shellFiles.set sole { phase := .opening firstTest [] }

def inputOpened : ProcessFiles 1 := begun.opened [] (.rightInput 1 0)

def inputFile : File := ⟨.rightInput 1 0, begun.table.lowest⟩

def outputOpened : ProcessFiles 1 := inputOpened.opened [inputFile] (.rightOutput 1 0)

def outputFile : File := ⟨.rightOutput 1 0, inputOpened.table.lowest⟩

def userOpened : ProcessFiles 1 :=
  outputOpened.opened [inputFile, outputFile] (.userOutput 7 0)

def userFile : File := ⟨.userOutput 7 0, outputOpened.table.lowest⟩

/-- The worker has opened the files of its test and starts the child. -/
def firstTesting : ProcessFiles 1 :=
  userOpened.set sole
    { phase := .testing firstTest ⟨inputFile.fd, outputFile.fd, userFile.fd⟩
      fileManager := ⟨[inputFile, outputFile, userFile], false⟩ }

theorem table_bounds : begun.table.bound < 1024 ∧ inputOpened.table.bound < 1024 ∧
    outputOpened.table.bound < 1024 := by
  have hbegun : begun.table.bound = 3 := rfl
  have hput : ∀ (t : Table (OpenFile 1)) (f : OpenFile 1),
      (t.put t.lowest f).bound ≤ t.bound+1 := by
    intro t f
    have hle := t.lowest_le_bound
    change max t.bound (t.lowest+1) ≤ t.bound+1
    omega
  have hinput : inputOpened.table.bound ≤ begun.table.bound+1 := hput _ _
  have houtput : outputOpened.table.bound ≤ inputOpened.table.bound+1 := hput _ _
  omega

theorem firstTesting_run : Run (When ProcessFiles.NonePasses (ProcessFiles.Steps 1024)) shellFiles
    [.getFileno sole firstTest, .openFile sole false, .openFile sole false,
      .openFile sole false, .pushBack sole]
    firstTesting := by
  have hnone : ∀ (s : ProcessFiles 1) (a : FilesAction 1), (∀ i, a ≠ .passed i) →
      s.NonePasses a := fun _ _ h => h
  obtain ⟨hbegun, hinput, houtput⟩ := table_bounds
  have hgetFileno : ProcessFiles.Steps 1024 shellFiles (.getFileno sole firstTest) begun :=
    ⟨rfl, rfl, rfl⟩
  have hfirst : ProcessFiles.Steps 1024 begun (.openFile sole false) inputOpened :=
    opened_steps rfl rfl rfl hbegun
  have hsecond : ProcessFiles.Steps 1024 inputOpened (.openFile sole false) outputOpened :=
    opened_steps rfl (opened_phase _ _ _) rfl hinput
  have hthird : ProcessFiles.Steps 1024 outputOpened (.openFile sole false) userOpened :=
    opened_steps rfl (opened_phase _ _ _) rfl houtput
  have hpush : ProcessFiles.Steps 1024 userOpened (.pushBack sole) firstTesting :=
    ⟨rfl, firstTest, inputFile, outputFile, userFile, opened_phase _ _ _, rfl⟩
  refine .cons ⟨hnone _ _ (by simp), hgetFileno⟩ (.cons ⟨hnone _ _ (by simp), hfirst⟩ ?_)
  refine .cons ⟨hnone _ _ (by simp), hsecond⟩ (.cons ⟨hnone _ _ (by simp), hthird⟩ ?_)
  exact .single ⟨hnone _ _ (by simp), hpush⟩

theorem tests_bounded_first :
    3*[FilesAction.getFileno sole firstTest, .openFile sole false, .openFile sole false,
      .openFile sole false, .pushBack sole].countP FilesAction.isPushBack ≤ 1024 :=
  tests_bounded shellFiles_started firstTesting_run

theorem child_files_first :
    ∃ child, setIOTable ⟨inputFile.fd, outputFile.fd, userFile.fd⟩ firstTesting.table =
        some child ∧
      child.get 0 = some (.testFile sole (.rightInput 1 0)) ∧
      child.get 1 = some (.testFile sole (.userOutput 7 0)) ∧
      ∀ j test' io', (firstTesting.workers j).phase = .testing test' io' → ∃ fd, 2 ≤ fd ∧
        child.get fd = some (.testFile j (.rightOutput test'.programId test'.num)) :=
  child_files (f := .inherited 0) (g := .inherited 1) trivial rfl trivial rfl false
    shellFiles_started rfl firstTesting_run.of_when sole firstTest _ (by simp [firstTesting,
      ProcessFiles.set])

end FirstTest

end OnlineJudge
