import OnlineJudge.RebootServer
import OnlineJudge.Verdict

/-! The child of `Judge::Run` between `vfork` and `execvp`: its files, its user and its tracer,
and with it the user that a submission runs as. -/
namespace OnlineJudge

/-- The answers of the kernel to the child: an error number for a call that fails. -/
structure ChildKernel where
  dup2 : ℕ → ℕ → Option Errno
  setuid : UInt32 → Option Errno
  /-- What `errno` holds when no call of the child has failed. -/
  errno : Errno

/-- A process at its call of `execvp`. -/
structure Exec where
  uid : UInt32
  traced : Bool
  cmdArgs : List String
  deriving DecidableEq

namespace Judge

def setIOEnv (kernel : ChildKernel) (io : IOFileno) : Call Unit :=
  match kernel.dup2 io.rightInputFileno 0 with
  | some errno => printError "dup2 infile error" errno
  | none =>
    match kernel.dup2 io.userOutputFileno 1 with
    | some errno => printError "dup2 outfile error" errno
    | none => .ok ()

/-- `setRunner`, on the user of the process. The `int32_t` becomes a `uid_t`, and what `setuid`
returns is not looked at. -/
def setRunner (kernel : ChildKernel) (cond : ExecuteCondtion) (uid : UInt32) : Call UInt32 :=
  if cond.runer = 0 then printError "can't root to run" kernel.errno
  else if cond.runer ≠ -1 then
    match kernel.setuid (UInt32.ofInt cond.runer) with
    | none => .ok (UInt32.ofInt cond.runer)
    | some _ => .ok uid
  else .ok uid

/-- The branch of `Run` for the child, as far as its call of `execvp`. -/
def runChild (kernel : ChildKernel) (cond : ExecuteCondtion) (io : IOFileno)
    (cmdArgs : List String) (uid : UInt32) : Call Exec := do
  setIOEnv kernel io
  let uid ← setRunner kernel cond uid
  return { uid, traced := cond.trace, cmdArgs }

end Judge

/-- The child of a test of this request, in a server that runs as `uid`. -/
def requestChild (host : Host) (json : Json.Codec) (kernel : ChildKernel) (judger : Judger)
    (io : IOFileno) (uid : UInt32) (msg : Bytes) : Call Exec := do
  let conf ← parseData json msg
  Judge.runChild kernel (judger.executeCondtion conf.executeCondtion) io
    (judger.getCmdArgs (workDirPath host conf.runId)) uid

section Setuid
variable {kernel : ChildKernel} {cond : ExecuteCondtion} {io : IOFileno}

def ChildKernel.Redirects (kernel : ChildKernel) (io : IOFileno) : Prop :=
  kernel.dup2 io.rightInputFileno 0 = none ∧ kernel.dup2 io.userOutputFileno 1 = none

theorem setIOEnv_ok_iff : Judge.setIOEnv kernel io = .ok () ↔ kernel.Redirects io := by
  unfold Judge.setIOEnv ChildKernel.Redirects
  cases kernel.dup2 io.rightInputFileno 0 with
  | some errno => simp [printError]
  | none => cases kernel.dup2 io.userOutputFileno 1 <;> simp [printError]

/-- The values of an `int32_t`. -/
def IsInt32 (n : ℤ) : Prop := -2147483648 ≤ n ∧ n ≤ 2147483647

instance (n : ℤ) : Decidable (IsInt32 n) := inferInstanceAs (Decidable (_ ∧ _))

theorem uid_ne_zero {n : ℤ} (hn : IsInt32 n) (hzero : n ≠ 0) : UInt32.ofInt n ≠ 0 := by
  obtain ⟨hlo, hhi⟩ := hn
  intro h
  have hnat := congrArg UInt32.toNat h
  have hmod : (n % 2^32).toNat < 2^32 := by omega
  rw [UInt32.ofInt, UInt32.toNat_ofNat_of_lt' hmod, UInt32.toNat_zero] at hnat
  omega

/-- A server of root leaves root behind only through a `setuid` that succeeds. -/
theorem setRunner_notRoot_iff (kernel : ChildKernel) (cond : ExecuteCondtion)
    (hint : IsInt32 cond.runer) :
    (∀ uid, Judge.setRunner kernel cond 0 = .ok uid → uid ≠ 0) ↔
      cond.runer = 0 ∨
        (cond.runer ≠ -1 ∧ kernel.setuid (UInt32.ofInt cond.runer) = none) := by
  unfold Judge.setRunner
  by_cases hroot : cond.runer = 0
  · simp [hroot, printError]
  · have huid := uid_ne_zero hint hroot
    -- the sentinel keeps the process as it is
    by_cases hdefault : cond.runer = -1
    · simp [hdefault]
    · cases kernel.setuid (UInt32.ofInt cond.runer) with
      | none => simp [hroot, hdefault, huid]
      | some errno => simp [hroot, hdefault]

theorem runChild_ok_iff {cmdArgs : List String} {uid : UInt32} {exec : Exec} :
    Judge.runChild kernel cond io cmdArgs uid = .ok exec ↔
      kernel.Redirects io ∧ ∃ uid', Judge.setRunner kernel cond uid = .ok uid' ∧
        exec = { uid := uid', traced := cond.trace, cmdArgs } := by
  simp only [Judge.runChild, call_bind_ok_iff, call_pure, Except.ok.injEq, ← setIOEnv_ok_iff]
  constructor
  · intro ⟨_, hio, uid', hset, hexec⟩
    exact ⟨hio, uid', hset, hexec.symm⟩
  · intro ⟨hio, uid', hset, hexec⟩
    exact ⟨(), hio, uid', hset, hexec.symm⟩

end Setuid

@[simp] theorem executeCondtion_runer (cond : ExecuteCondtion) (judger : Judger) :
    (judger.executeCondtion cond).runer = cond.runer := by
  cases judger <;> rfl

/-- A request without the key of the runner has the default of `parseData`. -/
theorem parseData_noRunner {json : Json.Codec} {msg : Bytes} {conf : RunConfigure}
    {members : List (String × Json.Value)} (hroot : json.parse msg = .object members)
    (hkey : members.lookup "runner" = none) (hparse : parseData json msg = .ok conf) :
    conf.runer = -1 := by
  obtain ⟨v, hget, hint⟩ := (parseData_ok_iff.mp hparse).runer
  have hdefault : (json.parse msg).get "runner" (.int (-1)) = .ok (.int (-1)) := by
    simp [hroot, Json.Value.get, hkey]
  have hv : v = .int (-1) := call_ok_unique hget hdefault
  rw [hv] at hint
  simpa [Json.Value.asInt] using hint.symm

/-- A child of a server of root reaches `execvp` as another user exactly when one of its files
fails, or the request names root, or it names another user and `setuid` succeeds. -/
theorem requestChild_notRoot_iff (host : Host) (json : Json.Codec) (kernel : ChildKernel)
    (judger : Judger) (io : IOFileno) (msg : Bytes) (conf : RunConfigure)
    (hparse : parseData json msg = .ok conf) (hint : IsInt32 conf.runer) :
    (∀ exec, requestChild host json kernel judger io 0 msg = .ok exec → exec.uid ≠ 0) ↔
      ¬ kernel.Redirects io ∨ conf.runer = 0 ∨
        (conf.runer ≠ -1 ∧ kernel.setuid (UInt32.ofInt conf.runer) = none) := by
  have hruner : (judger.executeCondtion conf.executeCondtion).runer = conf.runer := by
    rw [executeCondtion_runer]
    rfl
  have hset := setRunner_notRoot_iff kernel (judger.executeCondtion conf.executeCondtion)
    (by rw [hruner]; exact hint)
  rw [hruner] at hset
  rw [← hset]
  simp only [requestChild, hparse, call_ok_bind, runChild_ok_iff]
  -- a child whose files fail never reaches `execvp`
  by_cases hio : kernel.Redirects io
  · constructor
    · intro h
      right
      intro uid huid
      exact h _ ⟨hio, uid, huid, rfl⟩
    · intro h exec ⟨_, uid, huid, hexec⟩
      rw [hexec]
      exact (h.resolve_left (not_not.mpr hio)) uid huid
  · simp [hio]

section NoRunner

/-- The request that the reboot server sends in its checks. -/
def checkMessage : Bytes := RebootServer.wrapData userCodec userConf

def willingKernel : ChildKernel := ⟨fun _ _ => none, fun _ => none, 0⟩

theorem requestChild_notRoot_iff_check :
    (∀ exec, requestChild .standard userCodec willingKernel .judgeC ⟨3, 4, 5⟩ 0 checkMessage =
      .ok exec → exec.uid ≠ 0) ↔
      ¬ willingKernel.Redirects ⟨3, 4, 5⟩ ∨
        ({ userConf with runer := -1 } : RunConfigure).runer = 0 ∨
        (({ userConf with runer := -1 } : RunConfigure).runer ≠ -1 ∧
          willingKernel.setuid (UInt32.ofInt (-1)) = none) :=
  requestChild_notRoot_iff .standard userCodec willingKernel .judgeC ⟨3, 4, 5⟩ checkMessage
    { userConf with runer := -1 } (parseData_wrapData userConf_read) (by decide)

/-- A request without a runner runs its program as root. -/
theorem not_requestChild_notRoot :
    ¬ ∀ (host : Host) (json : Json.Codec) (kernel : ChildKernel) (judger : Judger)
        (io : IOFileno) (msg : Bytes) (conf : RunConfigure), parseData json msg = .ok conf →
      IsInt32 conf.runer →
      ∀ exec, requestChild host json kernel judger io 0 msg = .ok exec → exec.uid ≠ 0 := by
  intro hclaim
  have hparse := parseData_wrapData userConf_read
  have hroot := hclaim .standard userCodec willingKernel .judgeC ⟨3, 4, 5⟩ checkMessage _ hparse
    (by decide)
  have hchild : requestChild .standard userCodec willingKernel .judgeC ⟨3, 4, 5⟩ 0 checkMessage =
      .ok { uid := 0, traced := true, cmdArgs := ["/tmp/oj/0/main"] } := by
    simp only [requestChild, checkMessage, hparse, call_ok_bind]
    rfl
  exact hroot _ hchild rfl

end NoRunner

end OnlineJudge
