import OnlineJudge.ProcessTask

/-! The verdict of a request as a function of its tests: `processTask` reports the last test
that it runs, and not the worst. -/
namespace OnlineJudge
open Posix

section Verdict
variable (host : Host) (judger : Judger) (conf : RunConfigure)

/-- `Judge` finds the test within its limits, and the checker finds the expected output. -/
def TestRun.Accepted (t : TestRun) : Prop :=
  t.judgeVerdict host judger conf.executeCondtion = some .kAC ∧ t.OutputOk host

instance (t : TestRun) : Decidable (t.Accepted host judger conf) :=
  inferInstanceAs (Decidable (_ ∧ _))

/-- Every test lets the loop go on, and the last one, within its limits, overwrites the
verdict of an earlier one that was not. -/
def VerdictLost (runs : List TestRun) : Prop :=
  (∀ t ∈ runs, t.Passes host judger conf.executeCondtion) ∧
    (∃ t ∈ runs, ¬ t.Limited host judger conf.executeCondtion) ∧
    ∀ t ∈ runs.getLast?, t.Limited host judger conf.executeCondtion

theorem test_accepted_iff (t : TestRun) :
    t.Accepted host judger conf ↔ t.Passes host judger conf.executeCondtion ∧
      t.Limited host judger conf.executeCondtion := by
  rw [TestRun.Accepted, judgeVerdict_accepted_iff, TestRun.Passes]
  tauto

theorem finalResults_accepted_iff (runs : List TestRun) (results : Results) (hne : runs ≠ []) :
    (finalResults host judger conf runs results).judgeResult = .kAC ↔
      (∀ t ∈ runs, t.Passes host judger conf.executeCondtion) ∧
        ∀ t ∈ runs.getLast?, t.Limited host judger conf.executeCondtion := by
  induction runs generalizing results with
  | nil => exact absurd rfl hne
  | cons t rest ih =>
    by_cases hpass : t.Passes host judger conf.executeCondtion
    · cases rest with
      | nil => simp [finalResults, hpass, results_accepted_iff]
      | cons t' rest =>
        have hnext := ih (t.results host judger conf.executeCondtion) (by simp)
        rw [finalResults, if_pos hpass, hnext]
        simp [hpass]
    · have hres := results_accepted_iff host judger conf.executeCondtion t
      simp [finalResults, hpass, hres]

theorem finalResults_accepted_iff_all (runs : List TestRun) (results : Results) (hne : runs ≠ []) :
    ((finalResults host judger conf runs results).judgeResult = .kAC ↔
      ∀ t ∈ runs, t.Accepted host judger conf) ↔ ¬ VerdictLost host judger conf runs := by
  rw [finalResults_accepted_iff host judger conf runs results hne]
  simp only [test_accepted_iff, VerdictLost]
  constructor
  · rintro hiff ⟨hpass, ⟨t, ht, hnot⟩, hlast⟩
    exact hnot (hiff.mp ⟨hpass, hlast⟩ t ht).2
  · intro hkept
    constructor
    · rintro ⟨hpass, hlast⟩ t ht
      refine ⟨hpass t ht, ?_⟩
      by_contra hnot
      exact hkept ⟨hpass, ⟨t, ht, hnot⟩, hlast⟩
    · intro hall
      exact ⟨fun t ht => (hall t ht).1,
        fun t ht => (hall t (List.mem_of_getLast? ht)).2⟩

end Verdict

/-- `processTask` answers the request, with `kAC`. -/
def EndsAccepted (host : Host) (json : Json.Codec) (tools : Tools) (msg : Bytes) (w : World) :
    Prop :=
  ∃ results w', processTask host json tools msg w = .ok (true, results, w') ∧
    results.judgeResult = .kAC

theorem endsAccepted_iff {host : Host} {json : Json.Codec} {tools : Tools} {msg : Bytes}
    {w : World} {conf : RunConfigure} {judger : Judger} {runs : List TestRun}
    (hparse : parseData json msg = .ok conf)
    (hjudger : constructJudger conf.codeType = some judger)
    (hbuild : Buildable host w.fs conf.runId)
    (hserved : TaskServed host tools w.fs.data conf judger runs) :
    EndsAccepted host json tools msg w ↔
      (finalResults host judger conf runs {}).judgeResult = .kAC := by
  simp [EndsAccepted, processTask_parsed w hparse, judgeTask_served w hbuild hjudger hserved]

section SlowFirst

/-- Two tests of a Ruby program with a limit of one second; the first takes two. -/
def slowFirst (num : ℕ) : TestRun where
  run := ⟨[⟨SIGTRAP, 59, ⟨0, 0, 100⟩⟩], .exited 0, ⟨if num = 0 then 2 else 0, 0, 2000⟩⟩
  userout := { data := str "1\n" }
  rightout := { data := str "1\n" }

def rubyConf : RunConfigure where
  runId := 7
  programId := 1
  timeLimit := 1000
  memoryLimit := 65536
  codeType := 7
  runTimes := 2
  runer := -1
  trace := true
  sourceCode := str "puts 1"

def rubyCodec : Json.Codec := .ofDocuments [(rubyConf.message, rubyConf.request)]

def slowFirstWorld : World where
  fs := { temp := .directory, work := fun _ => none, data := .ofRuns slowFirst }

theorem parseData_ruby : parseData rubyCodec rubyConf.message = .ok rubyConf :=
  parseData_message rubyCodec rubyConf (by simp [rubyCodec, Json.Codec.ofDocuments]) (by decide)

/-- A request for Pascal, a language of `CodeType` that `constructJudger` does not know. -/
def pascalConf : RunConfigure := { rubyConf with codeType := 4 }

def pascalCodec : Json.Codec := .ofDocuments [(pascalConf.message, pascalConf.request)]

theorem parseData_pascal : parseData pascalCodec pascalConf.message = .ok pascalConf :=
  parseData_message pascalCodec pascalConf (by simp [pascalCodec, Json.Codec.ofDocuments])
    (by decide)

theorem slowFirst_served : TaskServed .standard (.ofRuns slowFirst) (.ofRuns slowFirst) rubyConf
    .judgeRuby [slowFirst 0, slowFirst 1] :=
  taskServed_ofRuns slowFirst .standard .judgeRuby (by decide) standard_short

end SlowFirst

end OnlineJudge
