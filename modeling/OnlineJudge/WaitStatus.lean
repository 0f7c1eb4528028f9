import Mathlib

/-! Signals and the `int` in which `wait4` reports what became of a child, with the macros
of `sys/wait.h` that take it apart. -/
namespace Posix

/-- A signal number, real-time signals included. -/
structure Signal where
  num : ℕ
  pos : 0 < num
  le : num ≤ 64
  deriving DecidableEq

def SIGTRAP : Signal := ⟨5, by decide, by decide⟩
def SIGKILL : Signal := ⟨9, by decide, by decide⟩
def SIGSEGV : Signal := ⟨11, by decide, by decide⟩
def SIGALRM : Signal := ⟨14, by decide, by decide⟩
def SIGXCPU : Signal := ⟨24, by decide, by decide⟩

theorem Signal.num_inj {s t : Signal} : s.num = t.num ↔ s = t := by
  cases s
  cases t
  simp

abbrev Status := ℕ

def exitedStatus (code : UInt8) : Status := code.toNat*256

/-- Bit 7 tells that a core file was written. -/
def signaledStatus (sig : Signal) (core : Bool) : Status := sig.num+(if core then 128 else 0)

def stoppedStatus (sig : Signal) : Status := sig.num*256+127

/-- `status & 0x7f` -/
def wtermsig (status : Status) : ℕ := status%128

/-- `(status & 0xff00) >> 8` -/
def wstopsig (status : Status) : ℕ := status/256%256

def wifexited (status : Status) : Bool := wtermsig status == 0

/-- `((signed char)((status & 0x7f) + 1) >> 1) > 0`, which leaves out 0 and 0x7f. -/
def wifsignaled (status : Status) : Bool := 0 < wtermsig status && wtermsig status < 127

@[simp] theorem wifexited_exited (code : UInt8) : wifexited (exitedStatus code) = true := by
  simp only [wifexited, wtermsig, exitedStatus, beq_iff_eq]
  omega

@[simp] theorem wifexited_signaled (sig : Signal) (core : Bool) :
    wifexited (signaledStatus sig core) = false := by
  have hpos := sig.pos
  have hle := sig.le
  cases core <;> simp [wifexited, wtermsig, signaledStatus] <;> omega

@[simp] theorem wifexited_stopped (sig : Signal) : wifexited (stoppedStatus sig) = false := by
  simp only [wifexited, wtermsig, stoppedStatus, beq_eq_false_iff_ne, ne_eq]
  omega

@[simp] theorem wifsignaled_exited (code : UInt8) : wifsignaled (exitedStatus code) = false := by
  have h : wtermsig (exitedStatus code) = 0 := by simp only [wtermsig, exitedStatus]; omega
  simp [wifsignaled, h]

theorem wtermsig_signaled (sig : Signal) (core : Bool) :
    wtermsig (signaledStatus sig core) = sig.num := by
  have hle := sig.le
  cases core <;> simp [wtermsig, signaledStatus] <;> omega

@[simp] theorem wifsignaled_signaled (sig : Signal) (core : Bool) :
    wifsignaled (signaledStatus sig core) = true := by
  have hpos := sig.pos
  have hle := sig.le
  simp only [wifsignaled, wtermsig_signaled, Bool.and_eq_true, decide_eq_true_eq]
  omega

@[simp] theorem wstopsig_stopped (sig : Signal) : wstopsig (stoppedStatus sig) = sig.num := by
  have hle := sig.le
  simp only [wstopsig, stoppedStatus]
  omega

/-- `WSTOPSIG` of a status that is not a stop: the signal that ended the child is lost. -/
@[simp] theorem wstopsig_signaled (sig : Signal) (core : Bool) :
    wstopsig (signaledStatus sig core) = 0 := by
  have hle := sig.le
  cases core <;> simp [wstopsig, signaledStatus] <;> omega

end Posix
