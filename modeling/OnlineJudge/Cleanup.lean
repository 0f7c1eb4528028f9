import OnlineJudge.Verdict

/-! What `removeDir` can clear: the directory that `buildEnv` finds, and the one that
`processTask` leaves at each of its exits. -/
namespace OnlineJudge

/-- Regular files and empty directories, which one call of `remove` deletes. -/
def OnlyRemovable (entries : Entries) : Prop :=
  ∀ e ∈ entries, (∃ data, e.2 = .file data) ∨ e.2 = .dir []

def IsDir (work : Option Node) : Prop := ∃ entries, work = some (.dir entries)

/-- What stands at the path of a run, if it is a directory, can be removed entry by entry, and no
path of an entry overruns the buffer of `removeDir`. -/
def NothingStays (host : Host) (runId : UInt32) (work : Option Node) : Prop :=
  ∀ entries, work = some (.dir entries) →
    OnlyRemovable entries ∧ Fits (pathBytes (workDirPath host runId)) entries

theorem staysBehind_eq_false_iff (n : Node) :
    n.staysBehind = false ↔ (∃ data, n = .file data) ∨ n = .dir [] := by
  cases n with
  | file data => simp [Node.staysBehind, Node.dType, Node.removable]
  | dir entries => simp [Node.staysBehind, Node.dType, Node.removable]
  | symlink opens => simp [Node.staysBehind, Node.dType]

theorem onlyRemovable_iff (entries : Entries) :
    OnlyRemovable entries ↔ ∀ e ∈ entries, e.2.staysBehind = false := by
  simp only [OnlyRemovable, staysBehind_eq_false_iff]

section Path
variable {host : Host} {runId : UInt32} {work : Option Node}

theorem clearable_iff (h : work = none ∨ IsDir work) :
    Clearable host runId work ↔ NothingStays host runId work := by
  rcases h with rfl | ⟨entries, rfl⟩
  · simp [Clearable, NothingStays]
  · simp [Clearable, NothingStays, onlyRemovable_iff, and_comm]

theorem removed_eq_none_iff (h : Cleanable host runId work) :
    removed host runId work = none ↔ NothingStays host runId work := by
  obtain ⟨entries, rfl, hfits⟩ := h
  have hleft : removed host runId (some (.dir entries)) = none ↔
      entries.filter (·.2.staysBehind) = [] := by
    simp [removed, removeDir_fits hfits]
  rw [hleft, List.filter_eq_nil_iff]
  simp [NothingStays, onlyRemovable_iff, hfits]

end Path

section BuildEnv

/-- What the loop of `buildEnv` finds at `temp_dir/run_id`: something can stand there only in a
`temp_dir` that is already a directory. -/
def FileSystem.found (fs : FileSystem) (runId : UInt32) : Option Node :=
  if fs.temp = .directory then fs.work runId else none

/-- The loop of `buildEnv` ends, and with it an empty directory stands at the path. -/
def DeliversCleanDir (host : Host) (fs : FileSystem) (runId : UInt32) : Prop :=
  (∃ rounds out, mkdirRetry (pathBytes (workDirPath host runId)) rounds (fs.found runId) =
    .ok out) ∧ ∀ fs', buildEnv host fs runId = .ok (true, fs') → fs'.work runId = some (.dir [])

variable {host : Host}

theorem mkdirRetry_ends_iff (runId : UInt32) (work : Option Node) :
    (∃ rounds out, mkdirRetry (pathBytes (workDirPath host runId)) rounds work = .ok out) ↔
      Clearable host runId work := by
  rw [← mkdirRetry_returns_iff]
  constructor
  · rintro ⟨rounds, out, hout⟩
    -- a loop that ends within fewer rounds has found the path free
    cases rounds with
    | zero => simp [mkdirRetry] at hout
    | succ rounds =>
      cases rounds with
      | zero =>
        cases work with
        | none => exact ⟨some (.dir []), rfl⟩
        | some n =>
          cases hleft : removeDir (pathBytes (workDirPath host runId)) (some n) <;>
            simp [mkdirRetry, hleft] at hout
      | succ rounds => exact ⟨out, by rw [← mkdirRetry_stable _ rounds, hout]⟩
  · rintro ⟨out, hout⟩
    exact ⟨2, out, hout⟩

theorem buildEnv_delivers {fs fs' : FileSystem} {runId : UInt32}
    (h : buildEnv host fs runId = .ok (true, fs')) : fs'.work runId = some (.dir []) := by
  rcases buildEnv_returns h with hun | hbuild
  · rw [buildEnv_unbuildable runId hun] at h
    simp at h
  · rw [buildEnv_buildable hbuild, Except.ok.injEq, Prod.mk.injEq] at h
    rw [← h.2, builtFs_work_self]

/-- `buildEnv` ends with a clean directory exactly when a directory that is already there holds
regular files and empty directories only, and no name that is too long for the buffer of
`removeDir`. -/
theorem buildEnv_delivers_iff (host : Host) (fs : FileSystem) (runId : UInt32)
    (htree : fs.found runId = none ∨ IsDir (fs.found runId)) :
    DeliversCleanDir host fs runId ↔ NothingStays host runId (fs.found runId) := by
  rw [← clearable_iff htree, ← mkdirRetry_ends_iff]
  constructor
  · intro h
    exact h.1
  · intro h
    exact ⟨h, fun fs' hbuilt => buildEnv_delivers hbuilt⟩

/-- What `python -m py_compile` leaves beside the source. -/
def pycache : Entries :=
  [("main.py", .file (str "print(1)")), ("__pycache__", .dir [("main.pyc", .file [0])])]

def pycacheFs : FileSystem where
  temp := .directory
  work := fun _ => some (.dir pycache)
  data := ⟨fun _ _ => none, fun _ _ => none⟩

theorem buildEnv_delivers_iff_pycache :
    DeliversCleanDir .standard pycacheFs 7 ↔ NothingStays .standard 7 (pycacheFs.found 7) :=
  buildEnv_delivers_iff .standard pycacheFs 7 (Or.inr ⟨pycache, rfl⟩)

theorem not_onlyRemovable_pycache : ¬ OnlyRemovable pycache := by
  intro h
  have hcache := h ("__pycache__", .dir [("main.pyc", .file [0])]) (by simp [pycache])
  simp at hcache

/-- On a directory with a cache in it the loop of `buildEnv` never ends. -/
theorem not_buildEnv_delivers :
    ¬ ∀ (host : Host) (fs : FileSystem) (runId : UInt32),
      fs.found runId = none ∨ IsDir (fs.found runId) → DeliversCleanDir host fs runId := by
  intro hclaim
  have hdeliver := hclaim .standard pycacheFs 7 (Or.inr ⟨pycache, rfl⟩)
  have hclear := (mkdirRetry_ends_iff 7 _).mp hdeliver.1
  have hstays := (clearable_iff (Or.inr ⟨pycache, rfl⟩)).mp hclear
  exact not_onlyRemovable_pycache (hstays pycache rfl).1

end BuildEnv

section Exits
variable (host : Host) (tools : Tools)

/-- `processTask` gives its directory back: it makes none, or the language has a judger and what
`cleanEnv` meets, left by the compiler or by the tests, can be removed entry by entry. -/
inductive CleansUp (w : World) (conf : RunConfigure) : Prop
  | unbuildable (h : Unbuildable w.fs)
  | rejected (judger : Judger) (results : Results)
      (hjudger : constructJudger conf.codeType = some judger)
      (hfail : Rejects host tools judger conf results)
      (hleft : NothingStays host conf.runId (compiledWork host tools judger conf))
  | served (judger : Judger) (runs : List TestRun)
      (hjudger : constructJudger conf.codeType = some judger)
      (hserved : TaskServed host tools w.fs.data conf judger runs)
      (hleft : NothingStays host conf.runId (workAfter host judger conf tools runs 0
        (compiledWork host tools judger conf)))

variable {host tools}

theorem compiles_not_rejects {conf : RunConfigure} {judger : Judger}
    (h : Compiles host tools judger conf) (results : Results) :
    ¬ Rejects host tools judger conf results := by
  intro hfail
  have hsame := call_ok_unique h hfail
  simp at hsame

theorem rejected_cleans_iff {conf : RunConfigure} {judger : Judger} (w : World)
    (hclean : Cleanable host conf.runId (compiledWork host tools judger conf)) :
    ((w.compiled host tools judger conf).cleaned host conf.runId).fs.work conf.runId = none ↔
      NothingStays host conf.runId (compiledWork host tools judger conf) := by
  rw [← removed_eq_none_iff hclean]
  simp [World.cleaned]

theorem served_cleans_iff {conf : RunConfigure} {judger : Judger} {runs : List TestRun}
    (w : World) (h : TaskServed host tools w.fs.data conf judger runs) :
    ((w.tested host tools judger conf runs).cleaned host conf.runId).fs.work conf.runId = none ↔
      NothingStays host conf.runId (workAfter host judger conf tools runs 0
        (compiledWork host tools judger conf)) := by
  rw [← removed_eq_none_iff h.cleaned]
  simp [World.cleaned]

theorem judgeTask_leaves_none {conf : RunConfigure} (w : World) {out : Bool × Results × World}
    (hout : judgeTask host conf tools w = .ok out) (hnone : out.2.2.fs.work conf.runId = none) :
    CleansUp host tools w conf := by
  have hends := (judgeTask_returns_iff w).mp ⟨out, hout⟩
  cases hends with
  | unbuildable hun => exact .unbuildable hun
  | unsupported hbuild hjudger =>
    -- the directory that was made stays
    obtain rfl := call_ok_unique hout (judgeTask_unsupported w hbuild hjudger)
    simp at hnone
  | rejected judger results hbuild hjudger hfail hclean =>
    obtain rfl := call_ok_unique hout (judgeTask_rejected w hbuild hjudger hfail hclean)
    exact .rejected judger results hjudger hfail ((rejected_cleans_iff w hclean).mp hnone)
  | served judger runs hbuild hjudger hserved =>
    obtain rfl := call_ok_unique hout (judgeTask_served w hbuild hjudger hserved)
    exact .served judger runs hjudger hserved ((served_cleans_iff w hserved).mp hnone)

theorem judgeTask_cleans_up {conf : RunConfigure} (w : World)
    (hfresh : w.fs.work conf.runId = none) {out : Bool × Results × World}
    (hout : judgeTask host conf tools w = .ok out) (h : CleansUp host tools w conf) :
    out.2.2.fs.work conf.runId = none := by
  have hunbuildable (hun : Unbuildable w.fs) : out.2.2.fs.work conf.runId = none := by
    obtain rfl := call_ok_unique hout (judgeTask_unbuildable w hun)
    exact hfresh
  have hends := (judgeTask_returns_iff w).mp ⟨out, hout⟩
  cases h with
  | unbuildable hun => exact hunbuildable hun
  | rejected judger results hjudger hfail hleft =>
    -- the compiler has refused, so the task has left by this exit or before it
    cases hends with
    | unbuildable hun => exact hunbuildable hun
    | unsupported hbuild hnone => simp [hnone] at hjudger
    | served judger' runs hbuild hjudger' hserved =>
      obtain rfl : judger' = judger := Option.some.inj (hjudger'.symm.trans hjudger)
      exact absurd hfail (compiles_not_rejects hserved.compiled results)
    | rejected judger' results' hbuild hjudger' _ hclean =>
      obtain rfl : judger' = judger := Option.some.inj (hjudger'.symm.trans hjudger)
      obtain rfl := call_ok_unique hout (judgeTask_rejected w hbuild hjudger hfail hclean)
      exact (rejected_cleans_iff w hclean).mpr hleft
  | served judger runs hjudger hserved hleft =>
    -- `TaskServed` leaves open only whether the directory could be made
    have hbuild : Unbuildable w.fs ∨ Buildable host w.fs conf.runId := by
      cases hends with
      | unbuildable hun => exact Or.inl hun
      | unsupported hbuild _ => exact Or.inr hbuild
      | rejected _ _ hbuild _ _ _ => exact Or.inr hbuild
      | served _ _ hbuild _ _ => exact Or.inr hbuild
    rcases hbuild with hun | hbuild
    · exact hunbuildable hun
    · obtain rfl := call_ok_unique hout (judgeTask_served w hbuild hjudger hserved)
      exact (served_cleans_iff w hserved).mpr hleft

/-- A request that returns leaves no directory behind exactly when it cleans up. -/
theorem processTask_leaves_none_iff (host : Host) (json : Json.Codec) (tools : Tools)
    (msg : Bytes) (w : World) (conf : RunConfigure) (hparse : parseData json msg = .ok conf)
    (hfresh : w.fs.work conf.runId = none) (out : Bool × Results × World)
    (hout : processTask host json tools msg w = .ok out) :
    out.2.2.fs.work conf.runId = none ↔ CleansUp host tools w conf := by
  rw [processTask_parsed w hparse] at hout
  constructor
  · exact judgeTask_leaves_none w hout
  · exact judgeTask_cleans_up w hfresh hout

end Exits

section Pascal

theorem processTask_pascal :
    processTask .standard pascalCodec (.ofRuns slowFirst) pascalConf.message slowFirstWorld =
      .ok (false, {}, slowFirstWorld.built 7) := by
  rw [processTask_parsed slowFirstWorld parseData_pascal]
  exact judgeTask_unsupported slowFirstWorld (Or.inr ⟨rfl, Or.inl rfl⟩) rfl

theorem processTask_leaves_none_iff_pascal :
    (slowFirstWorld.built 7).fs.work 7 = none ↔
      CleansUp .standard (.ofRuns slowFirst) slowFirstWorld pascalConf :=
  processTask_leaves_none_iff .standard pascalCodec (.ofRuns slowFirst) pascalConf.message
    slowFirstWorld pascalConf parseData_pascal rfl _ processTask_pascal

/-- A request in a language without a judger leaves its directory behind. -/
theorem not_processTask_leaves_none :
    ¬ ∀ (host : Host) (json : Json.Codec) (tools : Tools) (msg : Bytes) (w : World)
        (conf : RunConfigure), parseData json msg = .ok conf → w.fs.work conf.runId = none →
      ∀ out, processTask host json tools msg w = .ok out → out.2.2.fs.work conf.runId = none := by
  intro hclaim
  have hnone := hclaim .standard pascalCodec (.ofRuns slowFirst) pascalConf.message slowFirstWorld
    pascalConf parseData_pascal rfl _ processTask_pascal
  simp [pascalConf, rubyConf] at hnone

end Pascal

end OnlineJudge
