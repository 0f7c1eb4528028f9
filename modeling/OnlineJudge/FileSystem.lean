import OnlineJudge.PathBuffer

/-! The files that the workers share: the work directories `temp_dir/run_id` and the test
data under `program_dir`. -/
namespace OnlineJudge

/-- The machine that runs the server, and the directories of its configuration. -/
structure Host where
  pagesize : ℕ
  pagesize_ge : 4096 ≤ pagesize
  tempDir : String
  programDir : String

/-- The directories that the constructor of `JudgeWorker` sets, on pages of 4 KiB. -/
def Host.standard : Host := ⟨4096, le_rfl, "/tmp/oj", "/oj/program"⟩

theorem Host.max_lt_pagesize (host : Host) : kMaxLength < host.pagesize :=
  lt_of_lt_of_le (by decide) host.pagesize_ge

/-- `%s/%d` on `temp_dir` and the run id. -/
def workDirPath (host : Host) (runId : UInt32) : String :=
  cStr host.tempDir ++ "/" ++ toString runId.toNat

theorem workDirPath_length (host : Host) (runId : UInt32) :
    (pathBytes (workDirPath host runId)).length =
      (pathBytes (cStr host.tempDir)).length+1+(decimal runId.toNat).length := by
  have hslash : (pathBytes "/").length = 1 := by decide +kernel
  rw [workDirPath, pathBytes_append, pathBytes_append, List.length_append, List.length_append,
    hslash]
  rfl

/-- What a path names. A symbolic link may or may not be good for opening the file behind
it for reading and writing. -/
inductive Node
  | file (data : Bytes)
  | dir (entries : List (String × Node))
  | symlink (opens : Bool)

abbrev Entries := List (String × Node)

def ENOENT : Errno := 2
def EISDIR : Errno := 21
def ENOTDIR : Errno := 20
def ELOOP : Errno := 40

namespace Node

/-- `DT_DIR`, `DT_REG` and `DT_LNK`. -/
def dType : Node → ℕ
  | dir _ => 4
  | file _ => 8
  | symlink _ => 10

/-- `remove(3)` deletes a file or a link, and a directory when it is empty. -/
def removable : Node → Bool
  | dir entries => entries.isEmpty
  | _ => true

/-- `removeDir` calls `remove` on entries of type 8 and 4 and ignores whether it works. -/
def staysBehind (n : Node) : Bool :=
  if n.dType = 8 then !n.removable
  else if n.dType = 4 then !n.removable
  else true

end Node

/-- An entry of a work directory as `readdir` reports it. -/
def dirent (e : String × Node) : Dirent := ⟨e.2.dType, pathBytes e.1⟩

/-- The paths of these entries stay inside the buffer of `removeDir`. -/
def Fits (dirPath : Bytes) (entries : Entries) : Prop :=
  ∃ paths, removePaths dirPath (entries.map dirent) = some paths

/-- `removeDir` on what stands at `dir_path`: one pass over the entries, each of which is given
to `remove` by its path, and then `remove` on the directory. -/
def removeDir (dirPath : Bytes) : Option Node → Call (Option Node)
  | some (.dir entries) =>
    match removePaths dirPath (entries.map dirent) with
    | none => .error .undefined
    | some _ =>
      let left := entries.filter (·.2.staysBehind)
      .ok (if left.isEmpty then none else some (.dir left))
  | some _ => printError "remove dir error" ENOTDIR
  | none => printError "remove dir error" ENOENT

/-- `open(path, O_CREAT | O_RDWR)` for a name in a work directory. -/
def createFile (work : Option Node) (name : String) : Call (Option Node) :=
  match work with
  | some (.dir entries) =>
    match entries.lookup name with
    | none => .ok (some (.dir (entries ++ [(name, .file [])])))
    | some (.file _) => .ok work
    | some (.symlink true) => .ok work
    | some (.symlink false) => printError "create file error" ELOOP
    | some (.dir _) => printError "create file error" EISDIR
  | some _ => printError "create file error" ENOTDIR
  | none => printError "create file error" ENOENT

/-- An `ofstream` on a name in a work directory: where it cannot be opened nothing happens.
What stands behind a link is outside the directory. -/
def writeStream (work : Option Node) (name : String) (data : Bytes) : Option Node :=
  match work with
  | some (.dir entries) =>
    match entries.lookup name with
    | none => some (.dir (entries ++ [(name, .file data)]))
    | some (.file _) =>
      some (.dir (entries.map (fun e => if e.1 = name then (name, .file data) else e)))
    | some _ => work
  | _ => work

/-- An `ifstream` on a name in a work directory. -/
def readStream (work : Option Node) (name : String) : Option Bytes :=
  match work with
  | some (.dir entries) =>
    match entries.lookup name with
    | some (.file data) => some data
    | _ => none
  | _ => none

/-- What `mkdir(temp_dir)` finds. -/
inductive TempDir
  | absent
  | directory
  /-- `EEXIST`, and then `ENOTDIR` for every name below it. -/
  | notDirectory
  | refused (errno : Errno)
  deriving DecidableEq

/-- The files `in/num` and `out/num` of a program, for every program and test number. -/
structure TestData where
  rightInput : UInt32 → ℕ → Option Bytes
  rightOutput : UInt32 → ℕ → Option FileView

/-- `work r` is what `temp_dir/r` names; a link in that place is one that leads to no directory. -/
structure FileSystem where
  temp : TempDir
  work : UInt32 → Option Node
  data : TestData

namespace FileSystem

def setWork (fs : FileSystem) (runId : UInt32) (n : Option Node) : FileSystem :=
  { fs with work := Function.update fs.work runId n }

@[simp] theorem setWork_work_self (fs : FileSystem) (runId : UInt32) (n : Option Node) :
    (fs.setWork runId n).work runId = n := by
  simp [setWork]

theorem setWork_work_of_ne (fs : FileSystem) {runId other : UInt32} (n : Option Node)
    (h : other ≠ runId) : (fs.setWork runId n).work other = fs.work other := by
  simp [setWork, h]

@[simp] theorem setWork_temp (fs : FileSystem) (runId : UInt32) (n : Option Node) :
    (fs.setWork runId n).temp = fs.temp := rfl

@[simp] theorem setWork_data (fs : FileSystem) (runId : UInt32) (n : Option Node) :
    (fs.setWork runId n).data = fs.data := rfl

@[simp] theorem setWork_setWork (fs : FileSystem) (runId : UInt32) (n n' : Option Node) :
    (fs.setWork runId n).setWork runId n' = fs.setWork runId n' := by
  simp [setWork]

end FileSystem

section Remove
variable {dirPath : Bytes}

theorem removeDir_fits {entries : Entries} (h : Fits dirPath entries) :
    removeDir dirPath (some (.dir entries)) =
      .ok (if (entries.filter (·.2.staysBehind)).isEmpty then none
        else some (.dir (entries.filter (·.2.staysBehind)))) := by
  obtain ⟨paths, hpaths⟩ := h
  simp only [removeDir, hpaths]

theorem removeDir_overrun {entries : Entries} (h : ¬ Fits dirPath entries) :
    removeDir dirPath (some (.dir entries)) = .error .undefined := by
  cases hpaths : removePaths dirPath (entries.map dirent) with
  | none => simp only [removeDir, hpaths]
  | some paths => exact absurd ⟨paths, hpaths⟩ h

/-- A path that is too long is that of an entry. -/
theorem fits_iff {entries : Entries} :
    Fits dirPath entries ↔ ∀ e ∈ entries, (dirent e).formatted = true →
      dirPath.length+(pathBytes e.1).length ≤ 98 := by
  unfold Fits
  rw [removePaths_isSome_iff]
  simp only [List.forall_mem_map, dirent]

theorem Fits.sublist {entries entries' : Entries} (h : Fits dirPath entries)
    (hsub : entries'.Sublist entries) : Fits dirPath entries' := by
  rw [fits_iff] at h ⊢
  intro e he
  exact h e (hsub.subset he)

instance (dirPath : Bytes) (entries : Entries) : Decidable (Fits dirPath entries) :=
  decidable_of_iff _ fits_iff.symm

/-- The first `removeDir` decides: what it leaves, the next one leaves too. -/
theorem removeDir_idempotent {work left : Option Node} (h : removeDir dirPath work = .ok left)
    (hsome : left ≠ none) : removeDir dirPath left = .ok left := by
  cases work with
  | none => simp [removeDir, printError] at h
  | some n =>
    cases n with
    | file data => simp [removeDir, printError] at h
    | symlink opens => simp [removeDir, printError] at h
    | dir entries =>
      by_cases hfits : Fits dirPath entries
      · rw [removeDir_fits hfits, Except.ok.injEq] at h
        split_ifs at h with hempty
        · exact absurd h.symm hsome
        · rw [← h, removeDir_fits (hfits.sublist List.filter_sublist), List.filter_filter]
          simp [hempty]
      · simp [removeDir_overrun hfits] at h

end Remove

/-- The loop of `buildEnv` on what `work_dir_path` names, in at most `rounds` rounds. -/
def mkdirRetry (dirPath : Bytes) : ℕ → Option Node → Call (Option Node)
  | 0, _ => .error .blocked
  | rounds+1, work =>
    match work with
    | none => .ok (some (.dir []))
    | some n => do
      let left ← removeDir dirPath (some n)
      mkdirRetry dirPath rounds left

/-- More than two rounds change nothing: a directory that is still there after the first
stays for ever. -/
theorem mkdirRetry_stable (dirPath : Bytes) (rounds : ℕ) (work : Option Node) :
    mkdirRetry dirPath (rounds+2) work = mkdirRetry dirPath 2 work := by
  -- what `removeDir` has left once it leaves again, so two rounds say what any more would
  have hstuck : ∀ (k : ℕ) (n : Node), removeDir dirPath (some n) = .ok (some n) →
      mkdirRetry dirPath k (some n) = .error .blocked := by
    intro k n hn
    induction k with
    | zero => rfl
    | succ k ih => simp [mkdirRetry, hn, ih]
  cases work with
  | none => rfl
  | some n =>
    cases hleft : removeDir dirPath (some n) with
    | error e => simp [mkdirRetry, hleft]
    | ok left =>
      cases left with
      | none => simp [mkdirRetry, hleft]
      | some m =>
        have hm := hstuck (rounds+1) m (removeDir_idempotent hleft (by simp))
        have hm' := hstuck 1 m (removeDir_idempotent hleft (by simp))
        rw [mkdirRetry, mkdirRetry]
        simp [hleft, hm, hm']

/-- `buildEnv`. Two rounds of its loop decide whether it ever ends. -/
def buildEnv (host : Host) (fs : FileSystem) (runId : UInt32) : Call (Bool × FileSystem) :=
  match fs.temp with
  | .refused _ => .ok (false, fs)
  | .notDirectory => .ok (false, fs)
  | .absent =>
    .ok (true, { fs with temp := .directory, work := fun _ => none }.setWork runId (some (.dir [])))
  | .directory => do
    let work ← mkdirRetry (pathBytes (workDirPath host runId)) 2 (fs.work runId)
    return (true, fs.setWork runId work)

end OnlineJudge
