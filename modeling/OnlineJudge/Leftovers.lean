import OnlineJudge.Cleanup
import OnlineJudge.Survival
import OnlineJudge.WorkDirs

/-! What runs of the pool leave under `temp_dir`: directories that no request names stay as they
are, and one that cannot be cleared is the end of every later request with its run id. -/
namespace OnlineJudge
open Transition

theorem advances_keeps_runId {host : Host} {p p' : Phase} {w w' : World}
    (h : Advances host p w p' w') {r : UInt32} (hp : p'.runId = some r) : p.runId = some r := by
  apply advances_holds h
  cases p' with
  | decoded conf tools => exact absurd rfl (advances_ne_decoded h conf tools)
  | _ => exact hp

theorem inTask_runId {p : Phase} (hp : p.inTask = true) : ∃ r, p.runId = some r := by
  cases p with
  | waiting | replying | returned | blocked => simp [Phase.inTask] at hp
  | _ => exact ⟨_, rfl⟩

theorem not_stray {n : ℕ} {a : Action n} (h : ¬ ∃ i fs, a = .stray i fs) : a.isStray = false := by
  cases a with
  | stray i fs => exact absurd ⟨i, fs, rfl⟩ h
  | _ => rfl

section Untouched
variable {n : ℕ} {host : Host} {json : Json.Codec}

/-- No request in flight has this run id, and the directory under it is as it was. -/
structure Untouched (r : UInt32) (fs : FileSystem) (s : Server n) : Prop where
  work : s.fs.work r = fs.work r
  data : s.fs.data = fs.data
  temp : s.fs.temp = .directory
  unnamed : ∀ i, (s.workers i).phase.runId ≠ some r

/-- A program that strays leaves this directory and the test data alone. -/
def Spares (r : UInt32) (s : Server n) : Action n → Prop
  | .stray _ fs => fs.work r = s.fs.work r ∧ fs.data = s.fs.data ∧ fs.temp = s.fs.temp
  | _ => True

/-- A message that is received is no request with this run id. -/
def NeverNames (json : Json.Codec) (r : UInt32) (_ : Server n) : Action n → Prop
  | .receive _ msg _ => ∀ conf, parseData json (msg.getD []) = .ok conf → conf.runId ≠ r
  | _ => True

theorem untouched_step {r : UInt32} {fs : FileSystem} {s t : Server n} {a : Action n}
    (hs : Untouched r fs s)
    (h : When (fun s a => NeverNames json r s a ∧ Spares r s a) (Server.Steps host json) s a t) :
    Untouched r fs t := by
  obtain ⟨⟨hnames, hspares⟩, hstep⟩ := h
  -- no worker comes to hold the run id: a step keeps its own, and a request never names `r`
  have hunnamed : ∀ i, (t.workers i).phase.runId ≠ some r := by
    apply forall_member (I := fun x : WorkerState => x.phase.runId ≠ some r) Server.workers
      hs.unnamed (fun i hi => Server.step_other hstep hi)
    have hown := hs.unnamed a.worker
    obtain ⟨_, hcases⟩ := Server.step_cases hstep
    cases hcases with
    | decoded i msg tools conf hphase hparse =>
      have hne : conf.runId ≠ r := hnames conf hparse
      simpa [Server.decode, Action.worker, Phase.runId] using hne
    | advanced i p w hphase hadv =>
      intro hp
      apply hown
      apply advances_keeps_runId (advances_of_advance hphase hadv)
      simpa [Action.worker] using hp
    | answered i ok results hphase =>
      cases ok <;> simp [Server.answer, Action.worker, Phase.runId, Phase.holds]
    | unsent i ok results hphase => simp [Action.worker, Phase.runId, Phase.holds]
    | undecoded i msg tools e | failed i e =>
      unfold Server.abort
      split_ifs
      · exact hown
      · simp [Action.worker, Phase.runId, Phase.holds]
    | strayed i fs => exact hown
  -- the file system: a stray program spares `r`, the step of a task keeps to its own run id
  by_cases hstray : ∃ i fs, a = .stray i fs
  · obtain ⟨i, fs', rfl⟩ := hstray
    obtain ⟨_, rfl⟩ := Server.step_stray hstep
    obtain ⟨hwork, hdata, htemp⟩ := hspares
    exact ⟨hwork.trans hs.work, hdata.trans hs.data, htemp.trans hs.temp, hunnamed⟩
  rcases step_fs hstep (not_stray hstray) with ⟨hfs, _⟩ | ⟨p, w, _, hphase, hadv, rfl⟩
  · refine ⟨?_, ?_, ?_, hunnamed⟩
    · rw [hfs]
      exact hs.work
    · rw [hfs]
      exact hs.data
    · rw [hfs]
      exact hs.temp
  · obtain ⟨r', hr'⟩ := inTask_runId hphase
    have hne : r ≠ r' := by
      rintro rfl
      exact hs.unnamed a.worker hr'
    obtain ⟨hwork, hdata⟩ := advances_frame hadv hr' hne hs.temp
    exact ⟨hwork.trans hs.work, hdata.trans hs.data, advances_temp hadv hphase hs.temp,
      hunnamed⟩

/-- Whatever the requests are, and in whatever order their tasks go on: the test data, and every
directory whose run id no request has, are left as they were, unless a program itself strays
there. -/
theorem others_untouched {s t : Server n} {acts : List (Action n)} (hstart : s.Started)
    (htemp : s.fs.temp = .directory) (r : UInt32)
    (hrun : Run (When (fun s a => NeverNames json r s a ∧ Spares r s a)
      (Server.Steps host json)) s acts t) :
    t.fs.work r = s.fs.work r ∧ t.fs.data = s.fs.data := by
  have hfresh : Untouched r s.fs s := by
    refine ⟨rfl, rfl, htemp, ?_⟩
    intro i
    simp [hstart.2 i, Phase.runId, Phase.holds]
  have hend := hrun.invariant (Untouched r s.fs) hfresh (fun _ _ _ hs h => untouched_step hs h)
  exact ⟨hend.work, hend.data⟩

end Untouched

section Poisoned
variable {n : ℕ} {host : Host} {json : Json.Codec}

/-- What stands under this run id cannot be cleared, and no task has built a directory there. -/
structure Poisoned (host : Host) (r : UInt32) (work : Option Node) (s : Server n) : Prop where
  temp : s.fs.temp = .directory
  found : s.fs.work r = work
  stuck : ¬ Clearable host r work
  free : ∀ i, (s.workers i).phase.holds ≠ some r

theorem poisoned_not_buildable {r : UInt32} {work : Option Node} {s : Server n}
    (hs : Poisoned host r work s) : ¬ Buildable host s.fs r := by
  rintro (habsent | ⟨_, hclear⟩)
  · simp [hs.temp] at habsent
  · rw [hs.found] at hclear
    exact hs.stuck hclear

/-- The only call that could be made under the run id is `buildEnv`, and it does not return. -/
theorem poisoned_call {r : UInt32} {work : Option Node} {s : Server n} {i : Fin n} {p : Phase}
    {w : World} (hs : Poisoned host r work s)
    (hadv : Advances host (s.workers i).phase (s.world i) p w) :
    (s.workers i).phase.runId ≠ some r := by
  intro hr
  have hnot := poisoned_not_buildable hs
  -- only a task that is still to build its directory could have the run id `r`
  cases hphase : (s.workers i).phase with
  | decoded conf tools =>
    rw [hphase] at hr hadv
    obtain rfl : conf.runId = r := by simpa [Phase.runId] using hr
    cases hadv with
    | refused _ _ _ hun =>
      have htemp : (s.world i).fs.temp = .directory := hs.temp
      rcases hun with hun | ⟨errno, hun⟩ <;> simp [htemp] at hun
    | unsupported _ _ _ hbuild _ => exact hnot hbuild
    | built _ _ _ _ hbuild _ => exact hnot hbuild
  | _ =>
    apply hs.free i
    rw [hphase] at hr ⊢
    exact hr

theorem poisoned_step {r : UInt32} {work : Option Node} {s t : Server n} {a : Action n}
    (hs : Poisoned host r work s) (h : When (Spares r) (Server.Steps host json) s a t) :
    Poisoned host r work t := by
  obtain ⟨hspares, hstep⟩ := h
  have hother : ∀ i, i ≠ a.worker → t.workers i = s.workers i :=
    fun i hi => Server.step_other hstep hi
  -- nobody holds `r`, and the call that would build its directory does not return
  by_cases hstray : ∃ i fs, a = .stray i fs
  · obtain ⟨i, fs, rfl⟩ := hstray
    obtain ⟨_, rfl⟩ := Server.step_stray hstep
    obtain ⟨hwork, _, htemp⟩ := hspares
    exact ⟨htemp.trans hs.temp, hwork.trans hs.found, hs.stuck, hs.free⟩
  rcases step_fs hstep (not_stray hstray) with ⟨hfs, hheld⟩ | ⟨p, w, _, hphase, hadv, rfl⟩
  · refine ⟨by rw [hfs]; exact hs.temp, by rw [hfs]; exact hs.found, hs.stuck, ?_⟩
    apply forall_member (I := fun x : WorkerState => x.phase.holds ≠ some r) Server.workers
      hs.free hother
    exact fun hr => hs.free a.worker (hheld r hr)
  · have hne := poisoned_call hs hadv
    obtain ⟨r', hr'⟩ := inTask_runId hphase
    have hrr : r ≠ r' := by
      rintro rfl
      exact hne hr'
    have hframe := (advances_frame hadv hr' hrr hs.temp).1
    refine ⟨advances_temp hadv hphase hs.temp, hframe.trans hs.found, hs.stuck, ?_⟩
    apply forall_member (I := fun x : WorkerState => x.phase.holds ≠ some r) Server.workers
      hs.free hother
    intro hr
    rw [Server.put_self] at hr
    exact hne (advances_holds hadv hr)

/-- A worker that has such a request never gets past `buildEnv`. -/
structure Waylaid (conf : RunConfigure) (tools : Tools) (replies : List Bytes) (x : WorkerState) :
    Prop where
  phase : x.phase = .decoded conf tools ∨ x.phase = .blocked
  replies : x.replies = replies

theorem waylaid_step {work : Option Node} {conf : RunConfigure} {tools : Tools}
    {replies : List Bytes} {s t : Server n} {a : Action n} {i : Fin n}
    (hs : Poisoned host conf.runId work s) (hx : Waylaid conf tools replies (s.workers i))
    (hstep : Server.Steps host json s a t) : Waylaid conf tools replies (t.workers i) := by
  by_cases hi : i = a.worker
  · subst hi
    obtain ⟨hphase, hreplies⟩ := hx
    have hwait : (s.workers a.worker).phase ≠ .waiting := by
      rcases hphase with hphase | hphase <;> simp [hphase]
    have hreply : ∀ ok results, (s.workers a.worker).phase ≠ .replying ok results := by
      rcases hphase with hphase | hphase <;> simp [hphase]
    obtain ⟨_, hcases⟩ := Server.step_cases hstep
    cases hcases with
    | decoded _ _ _ _ hwaiting _ => exact absurd hwaiting hwait
    | undecoded _ _ _ _ hwaiting _ => exact absurd hwaiting hwait
    | answered _ ok results hreplying => exact absurd hreplying (hreply ok results)
    | unsent _ ok results hreplying => exact absurd hreplying (hreply ok results)
    | advanced i p w htask hadv =>
      -- the only call it can make is that of `buildEnv`
      have hne := poisoned_call hs (advances_of_advance htask hadv)
      rcases hphase with hphase | hphase
      · have hdecoded : (s.workers i).phase = .decoded conf tools := hphase
        rw [hdecoded] at hne
        exact absurd rfl hne
      · have hblocked : (s.workers i).phase = .blocked := hphase
        rw [hblocked] at htask
        simp [Phase.inTask] at htask
    | failed i e htask hadv =>
      refine ⟨?_, (abort_replies s i e).trans hreplies⟩
      unfold Server.abort
      split_ifs
      · exact hphase
      · right
        simp [Action.worker]
    | strayed i fs => exact ⟨hphase, hreplies⟩
  · rw [Server.step_other hstep hi]
    exact hx

theorem poisoned_run {r : UInt32} {work : Option Node} {s t : Server n} {acts : List (Action n)}
    (hs : Poisoned host r work s) (hrun : Run (When (Spares r) (Server.Steps host json)) s acts t) :
    Poisoned host r work t :=
  hrun.invariant (Poisoned host r work) hs (fun _ _ _ hs h => poisoned_step hs h)

/-- What one pass of `removeDir` leaves, the next one leaves too. -/
theorem removed_not_clearable {r : UInt32} {entries : Entries}
    (hfits : Fits (pathBytes (workDirPath host r)) entries) (hstays : ¬ OnlyRemovable entries) :
    ¬ Clearable host r (removed host r (some (.dir entries))) := by
  have hsome : ∃ e ∈ entries, e.2.staysBehind = true := by
    simpa [onlyRemovable_iff] using hstays
  obtain ⟨e, he, hbehind⟩ := hsome
  have hleft : e ∈ entries.filter (·.2.staysBehind) := List.mem_filter.mpr ⟨he, hbehind⟩
  have hremoved : removed host r (some (.dir entries)) =
      some (.dir (entries.filter (·.2.staysBehind))) := by
    simp only [removed, removeDir_fits hfits, List.isEmpty_iff, List.ne_nil_of_mem hleft, if_false]
  rw [hremoved, clearable_iff (Or.inr ⟨_, rfl⟩)]
  intro hnone
  have honly := (onlyRemovable_iff _).mp (hnone _ rfl).1 e hleft
  simp [hbehind] at honly

section Cleaning
variable {s t : Server n} {i : Fin n} {r : UInt32} {results : Results} {entries : Entries}

/-- A task that cleans a directory with something in it that stays behind poisons its run id. -/
theorem cleaning_poisons (hexcl : Excluded s)
    (hphase : (s.workers i).phase = .cleaning r results) (hwork : s.fs.work r = some (.dir entries))
    (hfits : Fits (pathBytes (workDirPath host r)) entries) (hstays : ¬ OnlyRemovable entries)
    (hstep : Server.Steps host json s (.advance i) t) :
    Poisoned host r (removed host r (some (.dir entries))) t := by
  have hheld : (s.workers i).phase.holds = some r := by
    rw [hphase]
    rfl
  have htemp := hexcl.temp i (by simp [hheld])
  have hworld : (s.world i).fs.work r = some (.dir entries) := hwork
  have hadvance : advance host (s.workers i).phase (s.world i) =
      .ok (.replying true { results with runId := r }, (s.world i).cleaned host r) := by
    rw [hphase]
    exact advance_of_advances (.cleaned r results _ ⟨entries, hworld, hfits⟩)
  have htask : (s.workers i).phase.inTask = true := by
    rw [hphase]
    rfl
  have hput : Server.Steps host json s (.advance i) _ :=
    Server.step_advance (Server.step_cases hstep).1 htask hadvance
  obtain rfl : s.put i (.replying true { results with runId := r })
      ((s.world i).cleaned host r) = t :=
    Option.some.inj (hput.symm.trans hstep)
  refine ⟨htemp, ?_, ?_, ?_⟩
  · simp [World.cleaned, hworld]
  · exact removed_not_clearable hfits hstays
  · intro j hj
    by_cases hji : j = i
    · subst hji
      simp [Phase.holds] at hj
    · rw [Server.put_of_ne s _ _ hji] at hj
      exact hexcl.distinct j i r hji hj hheld

/-- A name that is too long ends the process there. -/
theorem cleaning_overruns (hphase : (s.workers i).phase = .cleaning r results)
    (hwork : s.fs.work r = some (.dir entries))
    (hlong : ¬ Fits (pathBytes (workDirPath host r)) entries)
    (hstep : Server.Steps host json s (.advance i) t) : t.exited = true := by
  obtain ⟨_, hcases⟩ := Server.step_cases hstep
  cases hcases with
  | advanced _ p w htask hadv =>
    have hadv := advances_of_advance htask hadv
    rw [hphase] at hadv
    cases hadv with
    | cleaned _ _ _ hclean =>
      -- `cleanEnv` returns only from a directory whose names fit
      obtain ⟨entries', hwork', hfits⟩ := hclean
      obtain rfl : entries = entries' := by
        have hsame : some (Node.dir entries) = some (.dir entries') := hwork.symm.trans hwork'
        simpa using hsame
      exact absurd hfits hlong
  | failed _ e htask hadv =>
    rw [hphase] at hadv
    have hworld : (s.world i).fs.work r = some (.dir entries) := hwork
    have herror : e = .undefined := by
      simpa [advance, finishTask, cleanEnv, hworld, removeDir_overrun hlong, eq_comm] using hadv
    simp [herror, Server.abort, Abort.endsProcess]

end Cleaning

theorem exited_run {ok : Server n → Action n → Prop} {s t : Server n} {acts : List (Action n)}
    (hexited : s.exited = true) (hrun : Run (When ok (Server.Steps host json)) s acts t) :
    t = s := by
  cases hrun with
  | nil => rfl
  | cons hstep _ =>
    have halive := (Server.step_cases hstep.2).1
    simp [hexited] at halive

/-- Once a task has left something behind that cannot be removed, no later request with its run
id is ever answered: the worker that takes it up stays in `buildEnv`, or the process ends there. -/
theorem leftovers_poison {s t u v v' : Server n} {acts acts' acts'' : List (Action n)}
    (hstart : s.Started) (hrun : Run (DistinctSteps host json) s acts t) (i : Fin n) (r : UInt32)
    (results : Results) (entries : Entries)
    (hphase : (t.workers i).phase = .cleaning r results)
    (hwork : t.fs.work r = some (.dir entries)) (hstays : ¬ OnlyRemovable entries)
    (hstep : Server.Steps host json t (.advance i) u)
    (hrun' : Run (When (Spares r) (Server.Steps host json)) u acts' v)
    (hrun'' : Run (When (Spares r) (Server.Steps host json)) v acts'' v') (j : Fin n)
    (conf : RunConfigure) (tools : Tools)
    (hdecoded : (v.workers j).phase = .decoded conf tools) (hrunId : conf.runId = r) :
    ((v'.workers j).phase = .decoded conf tools ∨ (v'.workers j).phase = .blocked) ∧
      (v'.workers j).replies = (v.workers j).replies := by
  subst hrunId
  -- either `removeDir` gets through and leaves the entry, or its path buffer overruns
  by_cases hfits : Fits (pathBytes (workDirPath host conf.runId)) entries
  · have ht : Excluded t := hrun.invariant Excluded (started_excluded hstart)
      (fun _ _ _ hs h => distinct_step hs h)
    have hu := cleaning_poisons ht hphase hwork hfits hstays hstep
    have hv := poisoned_run hu hrun'
    have hboth := hrun''.invariant
      (fun x => Poisoned host conf.runId (removed host conf.runId (some (.dir entries))) x ∧
        Waylaid conf tools (v.workers j).replies (x.workers j))
      ⟨hv, Or.inl hdecoded, rfl⟩
      (fun _ _ _ h hs => ⟨poisoned_step h.1 hs, waylaid_step h.1 h.2 hs.2⟩)
    exact ⟨hboth.2.phase, hboth.2.replies⟩
  · have hexited := cleaning_overruns hphase hwork hfits hstep
    obtain rfl := exited_run hexited hrun'
    obtain rfl := exited_run hexited hrun''
    exact ⟨Or.inl hdecoded, rfl⟩

end Poisoned

section Pycache

theorem others_untouched_pascal :
    pascalRefused.fs.work 8 = freshServer.fs.work 8 ∧
      pascalRefused.fs.data = freshServer.fs.data := by
  have hnames : NeverNames pascalCodec 8 freshServer
      (.receive 0 (some pascalConf.message) (.ofRuns slowFirst)) := by
    intro conf hparse
    obtain rfl : pascalConf = conf := by simpa [parseData_pascal] using hparse
    decide
  have hadvance : When (fun s a => NeverNames pascalCodec 8 s a ∧ Spares 8 s a)
      (Server.Steps .standard pascalCodec) pascalDecoded (.advance 0) pascalRefused :=
    ⟨⟨trivial, trivial⟩, pascal_advance⟩
  exact others_untouched freshServer_started rfl 8
    (.cons ⟨⟨hnames, trivial⟩, pascal_receive⟩ (.single hadvance))

/-- A request for a Python program with no test. -/
def pycacheConf : RunConfigure := { rubyConf with codeType := 2, runTimes := 0 }

def pycacheCodec : Json.Codec := .ofDocuments [(pycacheConf.message, pycacheConf.request)]

theorem parseData_pycache : parseData pycacheCodec pycacheConf.message = .ok pycacheConf :=
  parseData_message pycacheCodec pycacheConf (by simp [pycacheCodec, Json.Codec.ofDocuments])
    (by decide)

/-- The compiler of Python leaves its cache in the work directory. -/
def pycacheTools : Tools :=
  { Tools.ofRuns slowFirst with system := fun _ _ => (0, some (.dir pycache)) }

def pycacheJob : Job := ⟨pycacheConf, .judgePython, pycacheTools⟩

def pycacheDecoded (s : Server 1) : Server 1 :=
  s.decode sole (some pycacheConf.message) pycacheTools pycacheConf

def pycacheBuilt : Server 1 :=
  (pycacheDecoded freshServer).put sole (.built pycacheJob)
    (((pycacheDecoded freshServer).world sole).built 7)

def pycacheStored : Server 1 :=
  pycacheBuilt.put sole (.stored pycacheJob) ((pycacheBuilt.world sole).setWork 7
    (Judger.judgePython.storeSourceFile (str "puts 1") (some (.dir []))))

def pycacheCompiled : Server 1 :=
  pycacheStored.put sole (.cleaning 7 {})
    ((pycacheStored.world sole).setWork 7 (some (.dir pycache)))

def pycacheCleaned : Server 1 :=
  pycacheCompiled.put sole (.replying true { runId := 7 })
    ((pycacheCompiled.world sole).cleaned .standard 7)

theorem pycache_receive {s : Server 1} (halive : s.exited = false)
    (hwait : (s.workers sole).phase = .waiting) :
    Server.Steps .standard pycacheCodec s
      (.receive 0 (some pycacheConf.message) pycacheTools) (pycacheDecoded s) :=
  Server.step_receive halive hwait parseData_pycache

theorem pycache_build : Server.Steps .standard pycacheCodec (pycacheDecoded freshServer)
    (.advance 0) pycacheBuilt := by
  have hbuild : Buildable .standard ((pycacheDecoded freshServer).world sole).fs
      pycacheConf.runId := Or.inr ⟨rfl, Or.inl rfl⟩
  exact Server.step_advance rfl rfl
    (advance_of_advances (.built pycacheConf .judgePython pycacheTools _ hbuild (by decide)))

theorem pycache_store :
    Server.Steps .standard pycacheCodec pycacheBuilt (.advance 0) pycacheStored :=
  Server.step_advance rfl rfl (advance_of_advances (.stored pycacheJob _))

theorem pycache_compile :
    Server.Steps .standard pycacheCodec pycacheStored (.advance 0) pycacheCompiled :=
  Server.step_advance rfl rfl rfl

theorem pycacheCompiled_run : Run (DistinctSteps .standard pycacheCodec) freshServer
    [.receive 0 (some pycacheConf.message) pycacheTools, .advance 0, .advance 0, .advance 0]
    pycacheCompiled := by
  -- the only worker shares its directory with nobody
  have hfresh (s : Server 1) : FreshRunId s (.advance 0) := by
    intro conf tools _ j hj
    exact absurd (Subsingleton.elim j 0) hj
  exact .cons ⟨⟨trivial, rfl⟩, pycache_receive rfl rfl⟩
    (.cons ⟨⟨hfresh _, rfl⟩, pycache_build⟩ (.cons ⟨⟨hfresh _, rfl⟩, pycache_store⟩
      (.single ⟨⟨hfresh _, rfl⟩, pycache_compile⟩)))

theorem pycache_clean :
    Server.Steps .standard pycacheCodec pycacheCompiled (.advance 0) pycacheCleaned :=
  Server.step_advance rfl rfl
    (advance_of_advances (.cleaned 7 {} _ ⟨pycache, rfl, by decide +kernel⟩))

/-- The reply is sent, and the same submission comes in again. -/
def pycacheAgain : Server 1 :=
  pycacheDecoded (pycacheCleaned.answer pycacheCodec sole true { runId := 7 })

theorem pycacheAgain_run :
    Run (When (Spares 7) (Server.Steps .standard pycacheCodec)) pycacheCleaned
      [.reply 0 true, .receive 0 (some pycacheConf.message) pycacheTools] pycacheAgain := by
  apply Run.cons ⟨trivial, Server.step_reply rfl rfl⟩
  apply Run.single
  refine ⟨trivial, ?_⟩
  apply pycache_receive
  · rfl
  · simp [Server.answer]

theorem pycacheAgain_phase :
    (pycacheAgain.workers sole).phase = .decoded pycacheConf pycacheTools := by
  simp [pycacheAgain, pycacheDecoded, Server.decode]

theorem pycacheAgain_hangs : Server.Steps .standard pycacheCodec pycacheAgain (.advance 0)
    (pycacheAgain.abort sole .blocked) := by
  have hblocked : advance .standard (pycacheAgain.workers sole).phase
      (pycacheAgain.world sole) = .error .blocked := by
    rw [pycacheAgain_phase]
    rfl
  have hstep : pycacheAgain.step .standard pycacheCodec (.advance 0) =
      some (pycacheAgain.abort sole .blocked) := by
    have htask : (pycacheAgain.workers 0).phase.inTask = true := by
      rw [pycacheAgain_phase]
      rfl
    have halive : pycacheAgain.exited = false := rfl
    simp [Server.step, hblocked, htask, halive]
  exact hstep

theorem pycacheAgain_steps :
    When (Spares 7) (Server.Steps .standard pycacheCodec) pycacheAgain (.advance 0)
      (pycacheAgain.abort sole .blocked) :=
  ⟨trivial, pycacheAgain_hangs⟩

theorem leftovers_poison_pycache :
    (((pycacheAgain.abort sole .blocked).workers sole).phase = .decoded pycacheConf pycacheTools ∨
      ((pycacheAgain.abort sole .blocked).workers sole).phase = .blocked) ∧
      ((pycacheAgain.abort sole .blocked).workers sole).replies =
        (pycacheAgain.workers sole).replies :=
  leftovers_poison freshServer_started pycacheCompiled_run sole 7 {} pycache rfl rfl
    not_onlyRemovable_pycache pycache_clean pycacheAgain_run
    (.single pycacheAgain_steps) sole
    pycacheConf pycacheTools pycacheAgain_phase rfl

end Pycache

end OnlineJudge
