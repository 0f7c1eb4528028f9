import OnlineJudge.Pool

/-! The work directories under one `temp_dir`: which runs of the workers keep each task alone
in its directory, and what such a task then reports. -/
namespace OnlineJudge
open Transition

/-- The run id whose directory the worker has built and not yet cleaned. -/
def Phase.holds : Phase → Option UInt32
  | .built job => some job.conf.runId
  | .stored job => some job.conf.runId
  | .opening job _ _ _ => some job.conf.runId
  | .running job _ _ _ _ => some job.conf.runId
  | .cleaning runId _ => some runId
  | _ => none

/-- The run id of the request that the worker is in. -/
def Phase.runId : Phase → Option UInt32
  | .decoded conf _ => some conf.runId
  | p => p.holds

theorem holds_runId {p : Phase} {r : UInt32} (h : p.holds = some r) : p.runId = some r := by
  cases p with
  | decoded conf tools => simp [Phase.holds] at h
  | _ => exact h

@[simp] theorem nextTest_holds (job : Job) (rounds num : ℕ) (results : Results) :
    (Phase.nextTest job rounds num results).holds = some job.conf.runId := by
  cases rounds <;> rfl

/-- The two worlds look the same to a task of this run id. -/
structure Agree (r : UInt32) (w u : World) : Prop where
  work : w.fs.work r = u.fs.work r
  data : w.fs.data = u.fs.data

theorem Agree.setWork {r : UInt32} {w u : World} (h : Agree r w u) (n : Option Node) :
    Agree r (w.setWork r n) (u.setWork r n) := by
  constructor
  · simp
  · simpa using h.data

section Advances
variable {host : Host}

theorem advances_holds {p p' : Phase} {w w' : World} (h : Advances host p w p' w')
    {r : UInt32} (hp : p'.holds = some r) : p.runId = some r := by
  cases h with
  | refused | unsupported | cleaned => simp [Phase.holds] at hp
  | compiled | passed =>
    rw [nextTest_holds] at hp
    exact hp
  | built | stored | rejected | opened | failed => exact hp

/-- Once `temp_dir` is there, a call changes nothing but the directory of its own request. -/
theorem advances_fs {p p' : Phase} {w w' : World} (h : Advances host p w p' w') {r : UInt32}
    (hp : p.runId = some r) (htemp : w.fs.temp = .directory) :
    ∃ n, w'.fs = w.fs.setWork r n := by
  cases h with
  | refused => exact ⟨w.fs.work r, by simp [FileSystem.setWork]⟩
  | unsupported | built =>
    obtain rfl := Option.some.inj hp
    exact ⟨_, by simp [World.built, builtFs, htemp]; rfl⟩
  | stored | compiled | rejected | cleaned =>
    obtain rfl := Option.some.inj hp
    exact ⟨_, rfl⟩
  | opened | passed | failed =>
    obtain rfl := Option.some.inj hp
    exact ⟨_, by simp [World.withTestFiles, World.afterRun]; rfl⟩

theorem advances_frame {p p' : Phase} {w w' : World} (h : Advances host p w p' w')
    {r r' : UInt32} (hp : p.runId = some r') (hne : r ≠ r') (htemp : w.fs.temp = .directory) :
    w'.fs.work r = w.fs.work r ∧ w'.fs.data = w.fs.data := by
  obtain ⟨n, hfs⟩ := advances_fs h hp htemp
  rw [hfs]
  exact ⟨FileSystem.setWork_work_of_ne _ _ hne, rfl⟩

/-- A task whose directory is built goes on in the same way in every world that looks the same
to it. -/
theorem advances_agree {p p' : Phase} {w w' u : World} (h : Advances host p w p' w')
    {r : UInt32} (hp : p.holds = some r) (hagree : Agree r w u) :
    ∃ u', Advances host p u p' u' ∧ Agree r w' u' := by
  cases h with
  -- before `buildEnv` has returned no directory is held
  | refused | unsupported | built => simp [Phase.holds] at hp
  -- each call reads the directory of `r` or the test data, on which the two worlds agree
  | stored job w =>
    obtain rfl : job.conf.runId = r := by simpa [Phase.holds] using hp
    refine ⟨_, .stored job u, ?_⟩
    rw [hagree.work]
    exact hagree.setWork _
  | compiled job w left hok =>
    obtain rfl : job.conf.runId = r := by simpa [Phase.holds] using hp
    rw [hagree.work] at hok
    exact ⟨_, .compiled job u left hok, hagree.setWork _⟩
  | rejected job w results left hfail =>
    obtain rfl : job.conf.runId = r := by simpa [Phase.holds] using hp
    rw [hagree.work] at hfail
    exact ⟨_, .rejected job u results left hfail, hagree.setWork _⟩
  | opened job rounds num rightout results w hopen =>
    obtain rfl : job.conf.runId = r := by simpa [Phase.holds] using hp
    rw [hagree.work, hagree.data] at hopen
    refine ⟨_, .opened job rounds num rightout results u hopen, ?_, ?_⟩
    · simp [hagree.work]
    · simpa [World.withTestFiles] using hagree.data
  | passed job rounds num t results w hrun hpass =>
    obtain rfl : job.conf.runId = r := by simpa [Phase.holds] using hp
    rw [hagree.work] at hrun
    refine ⟨_, .passed job rounds num t results u hrun hpass, ?_, ?_⟩
    · simp [World.afterRun, hagree.work]
    · simpa [World.afterRun] using hagree.data
  | failed job rounds num t results w hrun hfail =>
    obtain rfl : job.conf.runId = r := by simpa [Phase.holds] using hp
    rw [hagree.work] at hrun
    refine ⟨_, .failed job rounds num t results u hrun hfail, ?_, ?_⟩
    · simp [World.afterRun, hagree.work]
    · simpa [World.afterRun] using hagree.data
  | cleaned runId results w hclean =>
    obtain rfl : runId = r := by simpa [Phase.holds] using hp
    rw [hagree.work] at hclean
    refine ⟨_, .cleaned runId results u hclean, ?_⟩
    unfold World.cleaned
    rw [hagree.work]
    exact hagree.setWork _

theorem advances_temp {p p' : Phase} {w w' : World} (h : Advances host p w p' w')
    (hp : p.inTask = true) (htemp : w.fs.temp = .directory) : w'.fs.temp = .directory := by
  have hid : ∃ r, p.runId = some r := by
    cases p with
    | waiting | replying | returned | blocked => simp [Phase.inTask] at hp
    | _ => exact ⟨_, rfl⟩
  obtain ⟨r, hr⟩ := hid
  obtain ⟨n, hfs⟩ := advances_fs h hr htemp
  rw [hfs]
  exact htemp

theorem advances_builds {p p' : Phase} {w w' : World} (h : Advances host p w p' w')
    (hnone : p.holds = none) (hsome : p'.holds ≠ none) : w'.fs.temp = .directory := by
  cases h with
  | refused | unsupported => simp [Phase.holds] at hsome
  | built conf judger tools w hbuild hjudger =>
    rcases hbuild with habs | ⟨hdir, _⟩
    · simp [World.built, builtFs, habs]
    · simp [World.built, builtFs, hdir]
  | _ => simp [Phase.holds] at hnone

end Advances

theorem advances_ne_decoded {host : Host} {p p' : Phase} {w w' : World}
    (h : Advances host p w p' w') (conf : RunConfigure) (tools : Tools) :
    p' ≠ .decoded conf tools := by
  cases h with
  | compiled job w left hok => cases job.conf.runTimes.toNat <;> simp [Phase.nextTest]
  | passed job rounds num t results w hrun hpass => cases rounds <;> simp [Phase.nextTest]
  | _ => simp

section Exclusion
variable {n : ℕ} (host : Host) (json : Json.Codec)

/-- `buildEnv` is called with a run id that no other task in flight has. -/
def FreshRunId (s : Server n) : Action n → Prop
  | .advance i => ∀ conf tools, (s.workers i).phase = .decoded conf tools →
      ∀ j, j ≠ i → (s.workers j).phase.holds ≠ some conf.runId
  | _ => True

/-- The steps of the pool where tasks in flight have different run ids, and where no program
writes outside of its own work directory or after its end. -/
def DistinctSteps (s : Server n) (a : Action n) (t : Server n) : Prop :=
  When (fun s a => FreshRunId s a ∧ a.isStray = false) (Server.Steps host json) s a t

/-- No two workers hold one directory, and while one is held `temp_dir` is there. -/
structure Excluded (s : Server n) : Prop where
  distinct : ∀ i j r, i ≠ j → (s.workers i).phase.holds = some r →
    (s.workers j).phase.holds ≠ some r
  temp : ∀ i, (s.workers i).phase.holds ≠ none → s.fs.temp = .directory

variable {host json}

/-- What a step of the server does to the files: nothing, or what a call of its worker does. -/
theorem step_fs {s t : Server n} {a : Action n} (h : Server.Steps host json s a t)
    (hstray : a.isStray = false) :
    (t.fs = s.fs ∧ ∀ r, (t.workers a.worker).phase.holds = some r →
      (s.workers a.worker).phase.holds = some r) ∨
    ∃ p w, a = .advance a.worker ∧ (s.workers a.worker).phase.inTask = true ∧
      Advances host (s.workers a.worker).phase (s.world a.worker) p w ∧
      t = s.put a.worker p w := by
  obtain ⟨_, hcases⟩ := Server.step_cases h
  -- the only steps that touch the file system are the calls of a task
  cases hcases with
  | advanced i p w hphase hadv =>
    exact Or.inr ⟨p, w, rfl, hphase, advances_of_advance hphase hadv, rfl⟩
  | decoded i msg tools conf hphase _ =>
    exact Or.inl ⟨rfl, by simp [Server.decode, Action.worker, Phase.holds]⟩
  | answered i ok results hphase =>
    refine Or.inl ⟨rfl, ?_⟩
    cases ok <;> simp [Server.answer, Action.worker, Phase.holds]
  | unsent i ok results hphase => exact Or.inl ⟨rfl, by simp [Action.worker, Phase.holds]⟩
  | undecoded i msg tools e _ _ | failed i e _ _ =>
    refine Or.inl ⟨Server.abort_fs s i e, ?_⟩
    unfold Server.abort
    split_ifs
    · exact fun r hr => hr
    · simp [Action.worker, Phase.holds]
  | strayed i fs => simp [Action.isStray] at hstray

/-- The directory that a worker asks for is held by no other. -/
theorem fresh_runId {s : Server n} {i j : Fin n} {r r' : UInt32} (hs : Excluded s)
    (hfresh : FreshRunId s (.advance i)) (hi : (s.workers i).phase.runId = some r')
    (hj : (s.workers j).phase.holds = some r) (hne : j ≠ i) : r ≠ r' := by
  rintro rfl
  cases hphase : (s.workers i).phase with
  | decoded conf tools =>
    rw [hphase] at hi
    obtain rfl := Option.some.inj hi
    exact hfresh conf tools hphase j hne hj
  | _ =>
    rw [hphase] at hi
    exact hs.distinct i j r (Ne.symm hne) (by rw [hphase]; exact hi) hj

theorem distinct_step_frame {s t : Server n} {a : Action n} (hs : Excluded s)
    (h : DistinctSteps host json s a t) {i : Fin n} {r : UInt32}
    (hi : (s.workers i).phase.holds = some r) (hne : a.worker ≠ i) :
    t.fs.work r = s.fs.work r ∧ t.fs.data = s.fs.data := by
  obtain ⟨⟨hfresh, hstray⟩, hstep⟩ := h
  rcases step_fs hstep hstray with ⟨hfs, _⟩ | ⟨p, w, ha, hphase, hadv, rfl⟩
  · rw [hfs]
    exact ⟨rfl, rfl⟩
  · have htemp : s.fs.temp = .directory := hs.temp i (by simp [hi])
    have hid : ∃ r', (s.workers a.worker).phase.runId = some r' := by
      cases hp : (s.workers a.worker).phase with
      | waiting | replying | returned | blocked => simp [hp, Phase.inTask] at hphase
      | _ => exact ⟨_, rfl⟩
    obtain ⟨r', hr'⟩ := hid
    rw [ha] at hfresh
    have hr : r ≠ r' := fresh_runId hs hfresh hr' hi (Ne.symm hne)
    exact advances_frame hadv hr' hr htemp

theorem distinct_step {s t : Server n} {a : Action n} (hs : Excluded s)
    (h : DistinctSteps host json s a t) : Excluded t := by
  obtain ⟨⟨hfresh, hstray⟩, hstep⟩ := h
  have hother : ∀ j, j ≠ a.worker → (t.workers j).phase = (s.workers j).phase := by
    intro j hj
    rw [Server.step_other hstep hj]
  rcases step_fs hstep hstray with ⟨hfs, hheld⟩ | ⟨p, w, ha, hphase, hadv, rfl⟩
  · -- a step without a call takes no directory
    have hkept : ∀ j r, (t.workers j).phase.holds = some r →
        (s.workers j).phase.holds = some r := by
      intro j r hj
      by_cases hja : j = a.worker
      · rw [hja] at hj ⊢
        exact hheld r hj
      · rwa [hother j hja] at hj
    refine ⟨fun i j r hij hi hj => hs.distinct i j r hij (hkept i r hi) (hkept j r hj), ?_⟩
    intro i hi
    obtain ⟨r, hr⟩ := Option.ne_none_iff_exists'.mp hi
    rw [hfs]
    exact hs.temp i (by simp [hkept i r hr])
  · rw [ha] at hfresh
    -- the directory that a step of a task takes is the one of its own run id
    have hself : ((s.put a.worker p w).workers a.worker).phase = p := by simp
    have hnew : ∀ r j, p.holds = some r → j ≠ a.worker →
        (s.workers j).phase.holds ≠ some r := by
      intro r j hp hj hheld
      exact fresh_runId hs hfresh (advances_holds hadv hp) hheld hj rfl
    constructor
    · intro i j r hij hi hj
      by_cases hia : i = a.worker
      · rw [hia, hself] at hi
        have hja : j ≠ a.worker := fun hja => hij (hia.trans hja.symm)
        rw [hother j hja] at hj
        exact hnew r j hi hja hj
      · rw [hother i hia] at hi
        by_cases hja : j = a.worker
        · rw [hja, hself] at hj
          exact hnew r i hj hia hi
        · rw [hother j hja] at hj
          exact hs.distinct i j r hij hi hj
    · intro i hi
      by_cases hheld : ∃ j, (s.workers j).phase.holds ≠ none
      · obtain ⟨j, hj⟩ := hheld
        exact advances_temp hadv hphase (hs.temp j hj)
      · -- the first task in flight has just built its directory
        have hnone : ∀ j, (s.workers j).phase.holds = none := by
          intro j
          by_contra hj
          exact hheld ⟨j, hj⟩
        have hia : i = a.worker := by
          by_contra hia
          rw [hother i hia] at hi
          exact hi (hnone i)
        rw [hia, hself] at hi
        exact advances_builds hadv (hnone _) hi

theorem started_excluded {s : Server n} (h : s.Started) : Excluded s := by
  constructor
  · intro i j r _ hi
    simp [h.2 i, Phase.holds] at hi
  · intro i hi
    simp [h.2 i, Phase.holds] at hi

/-- The task of worker `i` is on its way to `out`: what is left of it, in a world that looks the
same to it, is `out`, and so is what it is about to reply. -/
structure Follows (host : Host) (out : Call (Bool × Results × World)) (i : Fin n)
    (s : Server n) : Prop where
  begun : ∀ conf tools, (s.workers i).phase = .decoded conf tools → s.exited = true
  held : ∀ r, (s.workers i).phase.holds = some r →
    ∃ u, rest host (s.workers i).phase u = out ∧ Agree r (s.world i) u
  replying : ∀ ok results, (s.workers i).phase = .replying ok results →
    ∃ u, out = .ok (ok, results, u)

theorem follows_idle {out : Call (Bool × Results × World)} {i : Fin n} {s : Server n}
    (h : (s.workers i).phase = .waiting ∨ (s.workers i).phase = .returned ∨
      (s.workers i).phase = .blocked) : Follows host out i s := by
  rcases h with h | h | h <;> constructor <;> simp [h, Phase.holds]

/-- A call that returns, in a world that looks the same to it, leads on to `out`. -/
theorem follows_put {out : Call (Bool × Results × World)} {i : Fin n} {s : Server n} {p : Phase}
    {w u u' : World} (hphase : (s.workers i).phase.inTask = true)
    (hrest : rest host (s.workers i).phase u = out)
    (hadv : Advances host (s.workers i).phase u p u')
    (hagree : ∀ r, p.holds = some r → Agree r w u') : Follows host out i (s.put i p w) := by
  -- one call less is left to do, in the world of the pool and in the one alone
  have hnext : rest host p u' = out := by
    rw [← hrest, rest_eq_advance host hphase, advance_of_advances hadv]
    rfl
  constructor
  · intro conf tools hp
    rw [Server.put_self] at hp
    obtain rfl : p = .decoded conf tools := hp
    exact absurd rfl (advances_ne_decoded hadv conf tools)
  · intro r hr
    rw [Server.put_self] at hr ⊢
    rw [Server.put_world]
    exact ⟨u', hnext, hagree r hr⟩
  · intro ok results hp
    rw [Server.put_self] at hp
    obtain rfl : p = .replying ok results := hp
    exact ⟨u', hnext.symm⟩

theorem inTask_holds {p : Phase} (hp : p.inTask = true)
    (hbegun : ∀ conf tools, p ≠ .decoded conf tools) : ∃ r, p.holds = some r := by
  cases p with
  | waiting | replying | returned | blocked => simp [Phase.inTask] at hp
  | decoded conf tools => exact absurd rfl (hbegun conf tools)
  | _ => exact ⟨_, rfl⟩

/-- A call of its own, or a step of another worker, keeps a task on its way. -/
theorem follows_step {out : Call (Bool × Results × World)} {i : Fin n} {s t : Server n}
    {a : Action n} (hexcl : Excluded s) (hs : Follows host out i s)
    (h : DistinctSteps host json s a t) (hown : a.worker = i → a.isReceive = false) :
    Follows host out i t := by
  obtain ⟨halive, hcases⟩ := Server.step_cases h.2
  have hstray := h.1.2
  by_cases hi : a.worker = i
  · have hreceive := hown hi
    subst hi
    cases hcases with
    | decoded | undecoded => simp [Action.isReceive] at hreceive
    | advanced i p w hphase hadv =>
      have hbegun : ∀ conf tools, (s.workers i).phase ≠ .decoded conf tools := by
        intro conf tools hp
        have hexited := hs.begun conf tools hp
        simp [halive] at hexited
      obtain ⟨r, hr⟩ := inTask_holds hphase hbegun
      -- the call does in the world `u` of the task alone what it does in the shared one
      obtain ⟨u, hrest, hagree⟩ := hs.held r hr
      have hadv := advances_of_advance hphase hadv
      obtain ⟨u', hadv', hagree'⟩ := advances_agree hadv hr hagree
      apply follows_put hphase hrest hadv'
      intro r' hr'
      obtain rfl : r = r' := by
        have hid := advances_holds hadv hr'
        rw [holds_runId hr, Option.some.injEq] at hid
        exact hid
      exact hagree'
    | failed i e hphase hadv =>
      unfold Server.abort
      split_ifs
      · exact ⟨fun _ _ _ => rfl, hs.held, hs.replying⟩
      · exact follows_idle (by simp [Action.worker])
    | answered i ok results hphase =>
      apply follows_idle
      cases ok <;> simp [Server.answer, Action.worker]
    | unsent i ok results hphase => exact follows_idle (by simp [Action.worker])
    | strayed i fs => simp [Action.isStray] at hstray
  · have hsame := Server.step_other h.2 (Ne.symm hi)
    constructor
    · intro conf tools hp
      rw [hsame] at hp
      have hexited := hs.begun conf tools hp
      simp [halive] at hexited
    · intro r hr
      rw [hsame] at hr ⊢
      obtain ⟨u, hrest, hagree⟩ := hs.held r hr
      obtain ⟨hwork, hdata⟩ := distinct_step_frame hexcl h hr hi
      refine ⟨u, hrest, ?_, ?_⟩
      · exact hwork.trans hagree.work
      · exact hdata.trans hagree.data
    · intro ok results hp
      rw [hsame] at hp
      exact hs.replying ok results hp

/-- The call of `buildEnv` puts the task on the way that it would take alone. -/
theorem follows_build {i : Fin n} {s t : Server n} {conf : RunConfigure} {tools : Tools}
    (hphase : (s.workers i).phase = .decoded conf tools)
    (h : Server.Steps host json s (.advance i) t) :
    Follows host (judgeTask host conf tools (s.world i)) i t := by
  obtain ⟨_, hcases⟩ := Server.step_cases h
  have hrest : rest host (s.workers i).phase (s.world i) =
      judgeTask host conf tools (s.world i) := by
    rw [hphase]
    rfl
  cases hcases with
  | advanced _ p w htask hadv =>
    exact follows_put htask hrest (advances_of_advance htask hadv) (fun _ _ => ⟨rfl, rfl⟩)
  | failed _ e htask hadv =>
    unfold Server.abort
    split_ifs
    · refine ⟨fun _ _ _ => rfl, ?_, ?_⟩ <;> simp [hphase, Phase.holds]
    · exact follows_idle (by simp)

/-- Where tasks that are in flight together have different run ids, and programs write into their
own directory only, no worker touches the directory of another task, and every task replies what
it would reply alone. -/
theorem workDir_exclusive {s t : Server n} {acts : List (Action n)} (hstart : s.Started)
    (hrun : Run (DistinctSteps host json) s acts t) :
    (∀ (a : Action n) (u : Server n) (i : Fin n) (r : UInt32), DistinctSteps host json t a u →
      (t.workers i).phase.holds = some r → a.worker ≠ i → u.fs.work r = t.fs.work r) ∧
    ∀ (i : Fin n) (conf : RunConfigure) (tools : Tools) (acts' : List (Action n)) (u : Server n)
      (ok : Bool) (results : Results), (t.workers i).phase = .decoded conf tools →
      Run (DistinctSteps host json) t (.advance i :: acts') u →
      (∀ a ∈ acts', a.worker = i → a.isReceive = false) →
      (u.workers i).phase = .replying ok results →
      ∃ w, judgeTask host conf tools (t.world i) = .ok (ok, results, w) := by
  have ht : Excluded t := hrun.invariant Excluded (started_excluded hstart)
    (fun s a t hs h => distinct_step hs h)
  constructor
  · intro a u i r hstep hheld hne
    exact (distinct_step_frame ht hstep hheld hne).1
  · intro i conf tools acts' u ok results hphase hrun' hown hreply
    cases hrun' with
    | cons hstep hrun' =>
      -- from `buildEnv` on the directory is the task's own, and its calls see what they see alone
      have hboth := hrun'.invariant_on
        (fun v => Excluded v ∧ Follows host (judgeTask host conf tools (t.world i)) i v)
        ⟨distinct_step ht hstep, follows_build hphase hstep.2⟩
        (fun v a v' ha hv h => ⟨distinct_step hv.1 h, follows_step hv.1 hv.2 h (hown a ha)⟩)
      exact hboth.2.replying ok results hreply

end Exclusion

section OtherRunId

def otherConf : RunConfigure := { rubyConf with runId := 8 }

def twoCodec : Json.Codec :=
  .ofDocuments [(rubyConf.message, rubyConf.request), (otherConf.message, otherConf.request)]

theorem parseData_first : parseData twoCodec rubyConf.message = .ok rubyConf :=
  parseData_message twoCodec rubyConf (by simp [twoCodec, Json.Codec.ofDocuments]) (by decide)

theorem parseData_other : parseData twoCodec otherConf.message = .ok otherConf := by
  have hne : (otherConf.message == rubyConf.message) = false := by decide +kernel
  exact parseData_message twoCodec otherConf
    (by simp [twoCodec, Json.Codec.ofDocuments, List.lookup_cons, hne]) (by decide)

def twoWorkers : Server 2 where
  fs := slowFirstWorld.fs
  workers _ := {}

def otherDecoded : Server 2 :=
  twoWorkers.decode latter (some otherConf.message) (.ofRuns slowFirst) otherConf

/-- The second worker has built its directory. -/
def otherBuilt : Server 2 :=
  otherDecoded.put latter (.built ⟨otherConf, .judgeRuby, .ofRuns slowFirst⟩)
    ((otherDecoded.world latter).built otherConf.runId)

/-- The first worker begins with another run beside it. -/
def besideOther : Server 2 :=
  otherBuilt.decode former (some rubyConf.message) (.ofRuns slowFirst) rubyConf

theorem besideOther_run : Run (DistinctSteps .standard twoCodec) twoWorkers
    [.receive 1 (some otherConf.message) (.ofRuns slowFirst), .advance 1,
      .receive 0 (some rubyConf.message) (.ofRuns slowFirst)] besideOther := by
  have hphase : (otherDecoded.workers 1).phase = .decoded otherConf (.ofRuns slowFirst) := by
    simp [otherDecoded, Server.decode]
  have hadvance : Server.Steps .standard twoCodec otherDecoded (.advance 1) otherBuilt := by
    apply Server.step_advance rfl (by rw [hphase]; rfl)
    rw [hphase]
    exact advance_of_advances (.built otherConf .judgeRuby (.ofRuns slowFirst)
      (otherDecoded.world 1) (Or.inr ⟨rfl, Or.inl rfl⟩) (by decide))
  have hfresh : FreshRunId otherDecoded (.advance 1) := by
    intro conf tools _ j hj
    obtain rfl : j = 0 := by omega
    rw [otherDecoded, Server.decode, Server.modify_of_ne _ _ (by decide)]
    simp [twoWorkers, Phase.holds]
  have hidle : (otherBuilt.workers 0).phase = .waiting := by
    rw [otherBuilt, Server.put_of_ne _ _ _ (by decide), otherDecoded, Server.decode,
      Server.modify_of_ne _ _ (by decide)]
    rfl
  have hfirst : DistinctSteps .standard twoCodec twoWorkers
      (.receive 1 (some otherConf.message) (.ofRuns slowFirst)) otherDecoded :=
    ⟨⟨trivial, rfl⟩, Server.step_receive rfl rfl parseData_other⟩
  have hlast : DistinctSteps .standard twoCodec otherBuilt
      (.receive 0 (some rubyConf.message) (.ofRuns slowFirst)) besideOther :=
    ⟨⟨trivial, rfl⟩, Server.step_receive rfl hidle parseData_first⟩
  exact .cons hfirst (.cons ⟨⟨hfresh, rfl⟩, hadvance⟩ (.single hlast))

theorem besideOther_holds : (besideOther.workers 1).phase.holds = some otherConf.runId := by
  rw [besideOther, Server.decode, Server.modify_of_ne _ _ (by decide), otherBuilt,
    Server.put_self]
  rfl

theorem besideOther_judged : ∃ w, judgeTask .standard rubyConf (.ofRuns slowFirst)
    (besideOther.world 0) = .ok (true, rubyResults, w) := by
  have hwork : besideOther.fs.work rubyConf.runId = none := by
    have hbuilt : besideOther.fs = builtFs slowFirstWorld.fs otherConf.runId := rfl
    rw [hbuilt, builtFs, FileSystem.setWork_work_of_ne _ _ (by decide)]
    rfl
  exact ⟨_, judgeTask_served _ (Or.inr ⟨rfl, Or.inl hwork⟩) rfl slowFirst_served⟩

/-- The calls of the first worker meet nobody in its directory. -/
theorem besideOther_distinct {acts : List (Action 2)} {u : Server 2}
    (hrun : Run (Server.Steps .standard twoCodec) besideOther acts u)
    (hacts : ∀ a ∈ acts, a = .advance 0) :
    Run (DistinctSteps .standard twoCodec) besideOther acts u := by
  -- worker 1 keeps its directory, and worker 0 is never decoded again
  apply hrun.strengthen (fun v => (v.workers 1).phase.holds = some otherConf.runId ∧
    ∀ conf tools, (v.workers 0).phase = .decoded conf tools → conf.runId = rubyConf.runId)
  · refine ⟨besideOther_holds, ?_⟩
    intro conf tools hphase
    obtain ⟨rfl, _⟩ : rubyConf = conf ∧ _ := by
      simpa [besideOther, Server.decode] using hphase
    rfl
  · intro v a v' ha hv hstep
    obtain rfl := hacts a ha
    obtain ⟨hother, hown⟩ := hv
    refine ⟨⟨⟨?_, rfl⟩, hstep⟩, ?_, ?_⟩
    · intro conf tools hphase j hj
      obtain rfl : j = 1 := by omega
      rw [hother, hown conf tools hphase]
      decide
    · rw [Server.step_other hstep (by decide : (1 : Fin 2) ≠ 0)]
      exact hother
    · intro conf tools hphase
      obtain ⟨_, hcases⟩ := Server.step_cases hstep
      cases hcases with
      | advanced _ p w htask hadv =>
        rw [Server.put_self] at hphase
        exact absurd hphase (advances_ne_decoded (advances_of_advance htask hadv) conf tools)
      | failed _ e htask hadv =>
        unfold Server.abort at hphase
        split_ifs at hphase
        · exact hown conf tools hphase
        · simp at hphase

theorem workDir_exclusive_ruby :
    ∃ (acts acts' : List (Action 2)) (u v : Server 2),
      Run (DistinctSteps .standard twoCodec) twoWorkers acts besideOther ∧
      (besideOther.workers 1).phase.holds = some otherConf.runId ∧
      Run (DistinctSteps .standard twoCodec) besideOther (.advance 0 :: acts') u ∧
      DistinctSteps .standard twoCodec u (.reply 0 true) v ∧
      (v.workers 0).replies = [wrapData twoCodec rubyResults] ∧
      (∀ (a : Action 2) (u : Server 2) (i : Fin 2) (r : UInt32),
        DistinctSteps .standard twoCodec besideOther a u →
        (besideOther.workers i).phase.holds = some r → a.worker ≠ i →
        u.fs.work r = besideOther.fs.work r) ∧
      ∃ w, judgeTask .standard rubyConf (.ofRuns slowFirst) (besideOther.world 0) =
        .ok (true, rubyResults, w) := by
  have hphase : (besideOther.workers 0).phase = .decoded rubyConf (.ofRuns slowFirst) := by
    simp [besideOther, Server.decode]
  obtain ⟨w, htask⟩ := besideOther_judged
  have hrest : besideOther.remaining .standard 0 = .ok (true, rubyResults, w) := by
    rw [Server.remaining, hphase]
    exact htask
  obtain ⟨acts', u, hrun, hacts, halive, hreply, _, hreplies, _⟩ :=
    busy_reaches_reply twoCodec (s := besideOther) (i := 0) rfl
      (by rw [hphase]; exact Or.inl rfl) hrest
  have hdistinct := besideOther_distinct hrun.of_when hacts
  obtain ⟨hother, halone⟩ :=
    workDir_exclusive (s := twoWorkers) ⟨rfl, fun _ => rfl⟩ besideOther_run
  cases hdistinct with
  | nil s =>
    rw [hphase] at hreply
    simp at hreply
  | @cons _ _ _ a acts'' hstep htail =>
    obtain rfl := hacts a (by simp)
    have hempty : (u.workers 0).replies = [] := by
      rw [hreplies]
      rfl
    refine ⟨_, acts'', u, u.answer twoCodec 0 true rubyResults, besideOther_run,
      besideOther_holds, .cons hstep htail, ⟨⟨trivial, rfl⟩, Server.step_reply halive hreply⟩, ?_,
      hother, ?_⟩
    · simp [Server.answer, hempty, Server.replied]
    · refine halone 0 rubyConf (.ofRuns slowFirst) acts'' u true rubyResults hphase
        (.cons hstep htail) ?_ hreply
      intro a ha _
      rw [hacts a (by simp [ha])]
      rfl

end OtherRunId

section SameRunId

/-- One request, with one run id, has come to both of them. -/
def oneDecoded : Server 2 :=
  twoWorkers.decode former (some rubyConf.message) (.ofRuns slowFirst) rubyConf

def bothDecoded : Server 2 :=
  oneDecoded.decode latter (some rubyConf.message) (.ofRuns slowFirst) rubyConf

def rubyJob : Job := ⟨rubyConf, .judgeRuby, .ofRuns slowFirst⟩

/-- The first worker has built the directory, and stored its source file in it. -/
def firstBuilt : Server 2 :=
  bothDecoded.put former (.built rubyJob) ((bothDecoded.world former).built rubyConf.runId)

def firstStored : Server 2 :=
  firstBuilt.put former (.stored rubyJob) ((firstBuilt.world former).setWork rubyConf.runId
    (Judger.judgeRuby.storeSourceFile rubyConf.sourceCode (firstBuilt.fs.work rubyConf.runId)))

def secondBuilt : Server 2 :=
  firstStored.put latter (.built rubyJob) ((firstStored.world latter).built rubyConf.runId)

theorem firstStored_work : firstStored.fs.work rubyConf.runId =
    some (.dir [("main.rb", .file rubyConf.sourceCode)]) := by
  simp [firstStored, firstBuilt, Judger.storeSourceFile, writeStream, Judger.sourceFile]

theorem bothDecoded_phase (i : Fin 2) :
    (bothDecoded.workers i).phase = .decoded rubyConf (.ofRuns slowFirst) := by
  match i with
  | 0 => simp [bothDecoded, oneDecoded, Server.decode, Server.modify]
  | 1 => simp [bothDecoded, Server.decode, Server.modify]

theorem step_build {s : Server 2} {i : Fin 2} (halive : s.exited = false)
    (hphase : (s.workers i).phase = .decoded rubyConf (.ofRuns slowFirst))
    (hbuild : Buildable .standard s.fs rubyConf.runId) :
    Server.Steps .standard rubyCodec s (.advance i)
      (s.put i (.built rubyJob) ((s.world i).built rubyConf.runId)) := by
  apply Server.step_advance halive (by rw [hphase]; rfl)
  rw [hphase]
  exact advance_of_advances
    (.built rubyConf .judgeRuby (.ofRuns slowFirst) (s.world i) hbuild (by decide))

theorem oneDecoded_steps : Server.Steps .standard rubyCodec twoWorkers
    (.receive 0 (some rubyConf.message) (.ofRuns slowFirst)) oneDecoded :=
  Server.step_receive rfl rfl parseData_ruby

theorem bothDecoded_steps : Server.Steps .standard rubyCodec oneDecoded
    (.receive 1 (some rubyConf.message) (.ofRuns slowFirst)) bothDecoded :=
  Server.step_receive rfl (by simp [oneDecoded, Server.decode, Server.modify, twoWorkers])
    parseData_ruby

/-- A second request with the same run id deletes the source file of the first. -/
theorem not_workDir_exclusive :
    ¬ ∀ (n : ℕ) (host : Host) (json : Json.Codec) (s t u : Server n) (acts : List (Action n))
        (a : Action n) (i : Fin n) (r : UInt32),
      s.Started → Run (Server.Steps host json) s acts t → Server.Steps host json t a u →
      (t.workers i).phase.holds = some r → a.worker ≠ i → u.fs.work r = t.fs.work r := by
  intro hclaim
  have hfirst := step_build (i := 0) rfl (bothDecoded_phase 0) (Or.inr ⟨rfl, Or.inl rfl⟩)
  have hstore : Server.Steps .standard rubyCodec firstBuilt (.advance 0) firstStored := by
    have hphase : (firstBuilt.workers 0).phase = .built rubyJob := by simp [firstBuilt]
    apply Server.step_advance rfl (by rw [hphase]; rfl)
    rw [hphase]
    rfl
  have hphase : (firstStored.workers 1).phase = .decoded rubyConf (.ofRuns slowFirst) := by
    rw [firstStored, Server.put_of_ne _ _ _ (by decide), firstBuilt,
      Server.put_of_ne _ _ _ (by decide)]
    exact bothDecoded_phase 1
  have hbuild : Buildable .standard firstStored.fs rubyConf.runId := by
    refine Or.inr ⟨rfl, Or.inr ⟨_, firstStored_work, by decide +kernel, ?_⟩⟩
    intro e he
    rw [List.mem_singleton.mp he]
    rfl
  -- the second task finds the directory of the first, and makes it anew
  have hsecond := step_build rfl hphase hbuild
  have hsame := hclaim 2 .standard rubyCodec twoWorkers firstStored secondBuilt _ _ 0
    rubyConf.runId ⟨rfl, fun _ => rfl⟩
    (.cons oneDecoded_steps (.cons bothDecoded_steps (.cons hfirst (.single hstore))))
    hsecond (by simp [firstStored, Phase.holds, rubyJob]) (by decide)
  rw [firstStored_work] at hsame
  simp [secondBuilt] at hsame

end SameRunId

end OnlineJudge
