import OnlineJudge.PathName
import OnlineJudge.TestLoop

/-! The strings under which the files of a run are opened. `getFileno`, `buildEnv` and
`storeSourceFile` format them one by one, and no output of a test comes under the name of
another file. -/
namespace OnlineJudge
open PathName

def slash : UInt8 := 47

/-- `work_dir_path` as `buildEnv` formats it from `temp_dir_.c_str()`. -/
def workDir (tempDir : Bytes) (runId : UInt32) : Bytes :=
  cString tempDir ++ str "/" ++ decimal runId.toNat

/-- The paths that `getFileno` formats from `program_dir_.c_str()` and `temp_dir_.c_str()`. -/
def DataPath.path (tempDir programDir : Bytes) : DataPath → Bytes
  | rightInput programId num =>
    cString programDir ++ str "/" ++ decimal programId.toNat ++ str "/in/" ++ decimal num
  | rightOutput programId num =>
    cString programDir ++ str "/" ++ decimal programId.toNat ++ str "/out/" ++ decimal num
  | userOutput runId num =>
    cString tempDir ++ str "/" ++ decimal runId.toNat ++ str "/" ++ decimal num ++ str ".out"

/-- The members of `Judger` that `storeSourceFile` sets. -/
structure StoredPaths where
  sourceFilePath : Bytes
  executeFilePath : Bytes
  compileErrorFile : Bytes

/-- What `storeSourceFile` makes of the path of the work directory. -/
def Judger.storedPaths (workDirPath : Bytes) : Judger → StoredPaths
  | judgeC => ⟨workDirPath ++ str "/main.c", workDirPath ++ str "/main",
      workDirPath ++ str "/error_info"⟩
  | judgeCpp => ⟨workDirPath ++ str "/main.c", workDirPath ++ str "/main",
      workDirPath ++ str "/error_info"⟩
  | judgePython => ⟨workDirPath ++ str "/main.py", workDirPath ++ str "/main.py",
      workDirPath ++ str "/error_info"⟩
  | judgeJava => ⟨workDirPath ++ str "/Main.java", str "Main", workDirPath ++ str "/error_info"⟩
  | judgeRuby => ⟨workDirPath ++ str "/main.rb", workDirPath ++ str "/main.rb",
      workDirPath ++ str "/error_info"⟩

section Names

theorem slash_notMem_decimal (n : ℕ) : slash ∉ decimal n := notMem_decimal (by decide) n

/-- A name that an entry of a directory can have. -/
structure IsEntryName (name : Bytes) : Prop where
  nonempty : name ≠ []
  noSlash : slash ∉ name
  noNul : 0 ∉ name
  notDot : name ≠ str "."
  notDotDot : name ≠ str ".."

def DirectlyIn (path dir : Bytes) : Prop := ∃ name, IsEntryName name ∧ path = inDir slash dir name

theorem pathBytes_userOutputName (num : ℕ) :
    pathBytes (userOutputName num) = decimal num ++ str ".out" := by
  rw [userOutputName, pathBytes_append]
  rfl

/-- Of all names, those of the outputs end with a `t`. -/
theorem userOutputName_last (num : ℕ) : (pathBytes (userOutputName num)).getLast? = some 116 := by
  have hext : (str ".out").getLast? = some 116 := by decide
  rw [pathBytes_userOutputName, List.getLast?_append, hext, Option.some_or]

theorem userOutputName_isEntryName (num : ℕ) : IsEntryName (pathBytes (userOutputName num)) := by
  have hlast := userOutputName_last num
  refine ⟨?_, ?_, ?_, ?_, ?_⟩
  · intro h
    simp [h] at hlast
  · have hext : slash ∉ str ".out" := by decide
    simp [pathBytes_userOutputName, slash_notMem_decimal, hext]
  · have hext : 0 ∉ str ".out" := by decide
    simp [pathBytes_userOutputName, nul_notMem_decimal, hext]
  · intro h
    rw [h] at hlast
    exact absurd hlast (by decide)
  · intro h
    rw [h] at hlast
    exact absurd hlast (by decide)

theorem userOutputName_injective : Function.Injective userOutputName := by
  intro num num' h
  exact Nat.repr_injective ((String.append_left_inj ".out").mp h)

end Names

section Paths
variable (tempDir programDir : Bytes)

@[simp] theorem str_slash : str "/" = [slash] := rfl

theorem workDir_below (runId : UInt32) :
    workDir tempDir runId = below slash (cString tempDir) [decimal runId.toNat] := by
  simp [workDir, below, inDir]

theorem testFile_below (dir program side num : Bytes) :
    dir ++ str "/" ++ program ++ (slash :: side ++ [slash]) ++ num =
      below slash dir [program, side, num] := by
  simp [below, inDir]

theorem path_rightInput (programId : UInt32) (num : ℕ) :
    (DataPath.rightInput programId num).path tempDir programDir =
      below slash (cString programDir) [decimal programId.toNat, str "in", decimal num] :=
  testFile_below _ _ (str "in") _

theorem path_rightOutput (programId : UInt32) (num : ℕ) :
    (DataPath.rightOutput programId num).path tempDir programDir =
      below slash (cString programDir) [decimal programId.toNat, str "out", decimal num] :=
  testFile_below _ _ (str "out") _

theorem path_userOutput (runId : UInt32) (num : ℕ) :
    (DataPath.userOutput runId num).path tempDir programDir =
      below slash (cString tempDir) [decimal runId.toNat, pathBytes (userOutputName num)] := by
  simp [DataPath.path, below, inDir, pathBytes_userOutputName]

/-- The output of a test is an entry of the work directory of its run. -/
theorem path_userOutput_inDir (runId : UInt32) (num : ℕ) :
    (DataPath.userOutput runId num).path tempDir programDir =
      inDir slash (workDir tempDir runId) (pathBytes (userOutputName num)) := by
  rw [path_userOutput, workDir_below]
  rfl

theorem decimal_ne_userOutputName (num num' : ℕ) :
    decimal num ≠ pathBytes (userOutputName num') := by
  intro h
  have hlast := userOutputName_last num'
  rw [← h] at hlast
  exact notMem_decimal (by decide) num (List.mem_of_getLast? hlast)

/-- A test file is found by the number of its program, its side and its own number. -/
theorem testFile_inj {programId programId' : UInt32} {num num' : ℕ} {side side' : Bytes}
    (hside : slash ∉ side) (hside' : slash ∉ side')
    (h : below slash (cString programDir) [decimal programId.toNat, side, decimal num] =
      below slash (cString programDir) [decimal programId'.toNat, side', decimal num']) :
    programId = programId' ∧ side = side' ∧ num = num' := by
  obtain ⟨_, hnames⟩ := (below_inj (by simp) (by simp [slash_notMem_decimal, hside])
    (by simp [slash_notMem_decimal, hside'])).mp h
  simpa [decimal_injective.eq_iff, UInt32.toNat_inj] using hnames

/-- The output of a test is found by its run and its number. -/
theorem userOutput_inj {runId runId' : UInt32} {num num' : ℕ}
    (h : (DataPath.userOutput runId num).path tempDir programDir =
      (DataPath.userOutput runId' num').path tempDir programDir) :
    runId = runId' ∧ num = num' := by
  rw [path_userOutput, path_userOutput] at h
  obtain ⟨_, hnames⟩ := (below_inj (by simp)
    (by simp [slash_notMem_decimal, (userOutputName_isEntryName num).noSlash])
    (by simp [slash_notMem_decimal, (userOutputName_isEntryName num').noSlash])).mp h
  simpa [decimal_injective.eq_iff, UInt32.toNat_inj, pathBytes_injective.eq_iff,
    userOutputName_injective.eq_iff] using hnames

/-- The name of an output is no number, and that of a test file is one. -/
theorem testFile_ne_userOutput (programId runId : UInt32) (num num' : ℕ) (side : Bytes) :
    below slash (cString programDir) [decimal programId.toNat, side, decimal num] ≠
      (DataPath.userOutput runId num').path tempDir programDir := by
  intro h
  rw [path_userOutput] at h
  have hnames := (inDir_inj (slash_notMem_decimal num)
    (userOutputName_isEntryName num').noSlash).mp h
  exact decimal_ne_userOutputName num num' hnames.2

/-- `getFileno` never comes to one path for two files. -/
theorem path_injective : Function.Injective (DataPath.path tempDir programDir) := by
  -- both names of the test data are sides of a path, and the side tells them apart
  have hin : slash ∉ str "in" := by decide
  have hout : slash ∉ str "out" := by decide
  intro d d' h
  cases d with
  | rightInput programId num =>
    rw [path_rightInput] at h
    cases d' with
    | rightInput programId' num' =>
      rw [path_rightInput] at h
      obtain ⟨rfl, _, rfl⟩ := testFile_inj programDir hin hin h
      rfl
    | rightOutput programId' num' =>
      rw [path_rightOutput] at h
      obtain ⟨_, hsides, _⟩ := testFile_inj programDir hin hout h
      exact absurd hsides (by decide)
    | userOutput runId num' =>
      exact absurd h (testFile_ne_userOutput tempDir programDir programId runId num num' _)
  | rightOutput programId num =>
    rw [path_rightOutput] at h
    cases d' with
    | rightInput programId' num' =>
      rw [path_rightInput] at h
      obtain ⟨_, hsides, _⟩ := testFile_inj programDir hout hin h
      exact absurd hsides (by decide)
    | rightOutput programId' num' =>
      rw [path_rightOutput] at h
      obtain ⟨rfl, _, rfl⟩ := testFile_inj programDir hout hout h
      rfl
    | userOutput runId num' =>
      exact absurd h (testFile_ne_userOutput tempDir programDir programId runId num num' _)
  | userOutput runId num =>
    cases d' with
    | rightInput programId num' =>
      rw [path_rightInput] at h
      exact absurd h.symm (testFile_ne_userOutput tempDir programDir programId runId num' num _)
    | rightOutput programId num' =>
      rw [path_rightOutput] at h
      exact absurd h.symm (testFile_ne_userOutput tempDir programDir programId runId num' num _)
    | userOutput runId' num' =>
      obtain ⟨rfl, rfl⟩ := userOutput_inj tempDir programDir h
      rfl

/-- `c_str()` cuts nothing off a path that is formatted from C strings. -/
theorem cString_workDir (runId : UInt32) :
    cString (workDir tempDir runId) = workDir tempDir runId := by
  have hslash : 0 ≠ slash := by decide
  apply cString_of_text
  simp [workDir, nul_notMem_cString, nul_notMem_decimal, hslash]

/-- The path of the work directory that the compiler and the submission are called with. -/
theorem pathBytes_workDirPath (host : Host) (runId : UInt32) :
    pathBytes (workDirPath host runId) = workDir (pathBytes host.tempDir) runId := by
  have hslash : pathBytes "/" = str "/" := by decide +kernel
  rw [workDirPath, pathBytes_append, pathBytes_append, hslash, pathBytes_cStr]
  rfl

end Paths

section Stored
variable (tempDir programDir : Bytes)

/-- The path is none of those that `storeSourceFile` has set. -/
structure StoredPaths.Excludes (stored : StoredPaths) (path : Bytes) : Prop where
  source : path ≠ stored.sourceFilePath
  execute : path ≠ stored.executeFilePath
  compileError : path ≠ stored.compileErrorFile

theorem storedPaths_source (judger : Judger) (workDirPath : Bytes) :
    (judger.storedPaths workDirPath).sourceFilePath =
      inDir slash workDirPath (pathBytes judger.sourceFile) := by
  cases judger <;> rfl

theorem storedPaths_compileError (judger : Judger) (workDirPath : Bytes) :
    (judger.storedPaths workDirPath).compileErrorFile =
      inDir slash workDirPath (pathBytes kErrorInfo) := by
  cases judger <;> rfl

/-- The child is started on the file that `storeSourceFile` has set as the executable. -/
theorem storedPaths_execute (judger : Judger) (workDirPath : String) :
    (judger.storedPaths (pathBytes workDirPath)).executeFilePath ∈
      (judger.getCmdArgs workDirPath).map pathBytes := by
  have hmain : pathBytes "/main" = str "/main" := by decide +kernel
  have hpy : pathBytes "/main.py" = str "/main.py" := by decide +kernel
  have hrb : pathBytes "/main.rb" = str "/main.rb" := by decide +kernel
  have hjava : pathBytes "Main" = str "Main" := by decide +kernel
  cases judger <;>
    simp [Judger.storedPaths, Judger.getCmdArgs, pathBytes_append, hmain, hpy, hrb, hjava]

/-- The output of a test is under no path that ends with another name. -/
theorem path_userOutput_ne (runId : UInt32) (num : ℕ) (dir : Bytes) {name : Bytes}
    (hname : slash ∉ name) (hlast : name.getLast? ≠ some 116) :
    (DataPath.userOutput runId num).path tempDir programDir ≠ inDir slash dir name := by
  rw [path_userOutput_inDir]
  intro h
  obtain ⟨_, rfl⟩ := (inDir_inj (userOutputName_isEntryName num).noSlash hname).mp h
  exact hlast (userOutputName_last num)

theorem storedPaths_excludes (judger : Judger) (workDirPath : Bytes) (runId : UInt32) (num : ℕ) :
    (judger.storedPaths workDirPath).Excludes
      ((DataPath.userOutput runId num).path tempDir programDir) := by
  have hentry (name : Bytes) (hname : slash ∉ name) (hlast : name.getLast? ≠ some 116) :
      (DataPath.userOutput runId num).path tempDir programDir ≠ inDir slash workDirPath name :=
    path_userOutput_ne tempDir programDir runId num workDirPath hname hlast
  have hsource : slash ∉ pathBytes judger.sourceFile ∧
      (pathBytes judger.sourceFile).getLast? ≠ some 116 := by
    cases judger <;> decide +kernel
  constructor
  · rw [storedPaths_source]
    exact hentry _ hsource.1 hsource.2
  · cases judger with
    | judgeC => exact hentry (str "main") (by decide) (by decide)
    | judgeCpp => exact hentry (str "main") (by decide) (by decide)
    | judgePython => exact hentry (str "main.py") (by decide) (by decide)
    | judgeJava =>
      -- `java` gets the name of a class, which is no path of the directory
      have hclass : slash ∉ str "Main" := by decide
      rw [path_userOutput_inDir]
      exact inDir_ne_name hclass
    | judgeRuby => exact hentry (str "main.rb") (by decide) (by decide)
  · rw [storedPaths_compileError]
    exact hentry (pathBytes kErrorInfo) (by decide +kernel) (by decide +kernel)

/-- File names never collide: the output of a test is one file of its own in the work directory
that `buildEnv` makes for the run, and no file of any `storeSourceFile`. -/
theorem userOutput_unique (runId runId' num num' : UInt32) :
    ((DataPath.userOutput runId num.toNat).path tempDir programDir =
      (DataPath.userOutput runId' num'.toNat).path tempDir programDir ↔
        runId = runId' ∧ num = num') ∧
    DirectlyIn ((DataPath.userOutput runId num.toNat).path tempDir programDir)
      (cString (workDir tempDir runId)) ∧
    ∀ (judger : Judger) (run : UInt32),
      (judger.storedPaths (cString (workDir tempDir run))).Excludes
        ((DataPath.userOutput runId num.toNat).path tempDir programDir) := by
  refine ⟨?_, ?_, ?_⟩
  · rw [(path_injective tempDir programDir).eq_iff, DataPath.userOutput.injEq, UInt32.toNat_inj]
  · refine ⟨pathBytes (userOutputName num.toNat), userOutputName_isEntryName num.toNat, ?_⟩
    rw [cString_workDir]
    exact path_userOutput_inDir tempDir programDir runId num.toNat
  · intro judger run
    exact storedPaths_excludes tempDir programDir judger _ runId num.toNat

end Stored

section Keeps

theorem createFile_keeps {work work' : Option Node} {name other : String}
    (h : createFile work name = .ok work') (hne : other ≠ name) :
    readStream work' other = readStream work other := by
  cases work with
  | none => simp [createFile, printError] at h
  | some n =>
    cases n with
    | file data => simp [createFile, printError] at h
    | symlink opens => simp [createFile, printError] at h
    | dir entries =>
      cases hentry : entries.lookup name with
      | none =>
        obtain rfl : some (.dir (entries ++ [(name, .file [])])) = work' := by
          simpa [createFile, hentry] using h
        simp [readStream, List.lookup_append, List.lookup_cons, beq_false_of_ne hne]
      | some n =>
        -- a file or a link that is already there is only opened
        obtain rfl : some (.dir entries) = work' := by
          cases n with
          | file data => simpa [createFile, hentry] using h
          | dir inner => simp [createFile, hentry, printError] at h
          | symlink opens =>
            cases opens with
            | true => simpa [createFile, hentry] using h
            | false => simp [createFile, hentry, printError] at h
        rfl

theorem getFileno_keeps {conf : RunConfigure} {num : ℕ} {w : World}
    {out : IOFileno × FileView × World} (h : getFileno conf num w = .ok out) {other : String}
    (hne : other ≠ userOutputName num) :
    readStream (out.2.2.fs.work conf.runId) other = readStream (w.fs.work conf.runId) other := by
  obtain ⟨work', hcreate⟩ := (getFileno_returns h).userOutput
  rw [getFileno_result h]
  have hwork : (w.withTestFiles conf num).fs.work conf.runId = work' := by
    rw [← createFile_withOutput hcreate]
    exact withTestFiles_work conf num w
  rw [hwork]
  exact createFile_keeps hcreate hne

/-- To open the files of a test leaves the source, the messages of the compiler and the outputs of
the other tests as they are. -/
theorem getFileno_keeps_files {conf : RunConfigure} {num : ℕ} {w : World}
    {out : IOFileno × FileView × World} (h : getFileno conf num w = .ok out) {other : String}
    (hother : (∃ judger : Judger, other = judger.sourceFile) ∨ other = kErrorInfo ∨
      ∃ num', num' ≠ num ∧ other = userOutputName num') :
    readStream (out.2.2.fs.work conf.runId) other = readStream (w.fs.work conf.runId) other := by
  have hstored (name : String) (hlast : (pathBytes name).getLast? ≠ some 116) :
      name ≠ userOutputName num := by
    rintro rfl
    exact hlast (userOutputName_last num)
  apply getFileno_keeps h
  rcases hother with ⟨judger, rfl⟩ | rfl | ⟨num', hnum, rfl⟩
  · apply hstored
    cases judger <;> decide +kernel
  · exact hstored kErrorInfo (by decide +kernel)
  · exact fun hsame => hnum (userOutputName_injective hsame)

end Keeps

end OnlineJudge
