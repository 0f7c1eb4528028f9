import OnlineJudge.FileNames
import OnlineJudge.Log
import OnlineJudge.Transition

/-! The start of the workers. `main` hands every thread a reference to one `WorkerConf`, and
writes the number of the next worker into it without waiting for the thread to read its own. -/
namespace OnlineJudge
open Transition

/-- `main` in its loop over the workers, and the threads that it has started, each with its
`worker_number_` from the time that `startWorker` has read it. -/
structure Launch where
  num : ℕ := 0
  /-- `worker_conf.num` -/
  confNum : ℕ := 0
  /-- The loop is between the assignment and the start of the thread. -/
  assigned : Bool := false
  workers : List (Option ℕ) := []
  deriving DecidableEq

inductive LaunchAction
  /-- The test `num != conf.worker_nums`, and `worker_conf.num = num`. -/
  | assign
  /-- `threads.push_back(thread(startWorker, ref(worker_conf)))`, and `++num`. -/
  | start
  /-- `judgeWorker.setWorkerNum(worker_conf.num)` in this thread. -/
  | read (k : ℕ)
  deriving DecidableEq

namespace Launch

def Steps (workerNums : ℤ) (s : Launch) (a : LaunchAction) (t : Launch) : Prop :=
  match a with
  | .assign => s.assigned = false ∧ (s.num : ℤ) ≠ workerNums ∧
      t = { s with confNum := s.num, assigned := true }
  | .start => s.assigned = true ∧
      t = { s with num := s.num+1, assigned := false, workers := s.workers ++ [none] }
  | .read k => s.workers[k]? = some none ∧
      t = { s with workers := s.workers.set k (some s.confNum) }

/-- `main` has left its loop, and every thread has its number. -/
structure Ready (workerNums : ℤ) (s : Launch) : Prop where
  joined : (s.num : ℤ) = workerNums
  numbered : ∀ x ∈ s.workers, x ≠ none

/-- `main` goes on to the next number only after all threads have read theirs. -/
def Prompt (s : Launch) (a : LaunchAction) : Prop := a = .assign → ∀ x ∈ s.workers, x ≠ none

end Launch

/-- The prefix of the log, as `init` formats it. -/
def workerPrefix (workerNumber : ℕ) : Bytes := str "JudgeWorker " ++ decimal workerNumber

/-- `vector<char> prefix(20)` after the `sprintf`, with the log that takes the prefix from it. -/
def initLog (workerNumber : ℕ) : Option Log := do
  let buffer ← sprintf (List.replicate 20 0) (workerPrefix workerNumber)
  return ({} : Log).setPrefix (cString buffer)

section Numbers
variable {workerNums : ℤ}

/-- A number that was read is one that `main` had assigned when the thread was there. -/
structure Launch.Numbered (workerNums : ℤ) (s : Launch) : Prop where
  length : s.workers.length = s.num
  current : s.confNum = if s.assigned then s.num else s.num-1
  more : s.assigned = true → (s.num : ℤ) ≠ workerNums
  bound : 0 ≤ workerNums → (s.num : ℤ) ≤ workerNums
  lower : ∀ k n : ℕ, s.workers[k]? = some (some n) → k ≤ n
  upper : ∀ k n : ℕ, s.workers[k]? = some (some n) → n ≤ s.confNum

theorem numbered_step {s t : Launch} {a : LaunchAction} (hs : s.Numbered workerNums)
    (h : Launch.Steps workerNums s a t) : t.Numbered workerNums := by
  cases a with
  | assign =>
    obtain ⟨hidle, hmore, rfl⟩ := h
    have hcurrent : s.confNum = s.num-1 := by
      simpa [hidle] using hs.current
    refine ⟨hs.length, rfl, fun _ => hmore, hs.bound, hs.lower, ?_⟩
    intro k n hk
    have hn := hs.upper k n hk
    change n ≤ s.num
    omega
  | start =>
    obtain ⟨hassigned, rfl⟩ := h
    have hcurrent : s.confNum = s.num := by
      simpa [hassigned] using hs.current
    -- the new thread has no number
    have hold : ∀ k n : ℕ, (s.workers ++ [none])[k]? = some (some n) →
        s.workers[k]? = some (some n) := by
      intro k n hk
      rw [List.getElem?_append] at hk
      split_ifs at hk with hlt
      · exact hk
      · rw [List.getElem?_singleton] at hk
        split_ifs at hk
        simp at hk
    refine ⟨?_, ?_, by simp, ?_, ?_, ?_⟩
    · simp [hs.length]
    · simp [hcurrent]
    · intro hpos
      have hle := hs.bound hpos
      have hne := hs.more hassigned
      push_cast
      omega
    · exact fun k n hk => hs.lower k n (hold k n hk)
    · exact fun k n hk => hs.upper k n (hold k n hk)
  | read j =>
    obtain ⟨hnone, rfl⟩ := h
    have hj : j < s.workers.length := by
      by_contra hge
      rw [List.getElem?_eq_none (by omega)] at hnone
      simp at hnone
    -- what the thread reads is no less than its own place
    have hread : j ≤ s.confNum := by
      have hlength := hs.length
      have hcurrent := hs.current
      split_ifs at hcurrent <;> omega
    have hset : ∀ k n : ℕ, (s.workers.set j (some s.confNum))[k]? = some (some n) →
        (k = j ∧ n = s.confNum) ∨ s.workers[k]? = some (some n) := by
      intro k n hk
      by_cases hkj : k = j
      · left
        subst hkj
        rw [List.getElem?_set_self hj] at hk
        simpa [eq_comm] using hk
      · right
        rwa [List.getElem?_set_ne (Ne.symm hkj)] at hk
    refine ⟨?_, hs.current, hs.more, hs.bound, ?_, ?_⟩
    · simp [hs.length]
    · intro k n hk
      rcases hset k n hk with ⟨rfl, rfl⟩ | hk
      · exact hread
      · exact hs.lower k n hk
    · intro k n hk
      rcases hset k n hk with ⟨_, rfl⟩ | hk
      · exact le_rfl
      · exact hs.upper k n hk

theorem numbered_run {acts : List LaunchAction} {t : Launch}
    (hrun : Run (Launch.Steps workerNums) {} acts t) : t.Numbered workerNums := by
  have hstart : ({} : Launch).Numbered workerNums := by
    refine ⟨rfl, rfl, by simp, ?_, by simp, by simp⟩
    intro hpos
    simpa using hpos
  exact hrun.invariant (Launch.Numbered workerNums) hstart
    (fun _ _ _ hs h => numbered_step hs h)

theorem numbered_lt {s : Launch} (hs : s.Numbered workerNums) (hpos : 0 ≤ workerNums) {k n : ℕ}
    (hk : s.workers[k]? = some (some n)) : (n : ℤ) < workerNums := by
  have hlt : k < s.workers.length := (List.getElem?_eq_some_iff.mp hk).1
  have hle := hs.upper k n hk
  have hbound := hs.bound hpos
  have hcurrent := hs.current
  have hmore := hs.more
  have hlength := hs.length
  -- what is assigned is below the number of workers
  cases hassigned : s.assigned with
  | true =>
    have hne := hmore hassigned
    simp only [hassigned, if_true] at hcurrent
    omega
  | false =>
    simp only [hassigned, Bool.false_eq_true, if_false] at hcurrent
    omega

/-- With every thread in time, each has its own place for its number. -/
structure Launch.InTime (s : Launch) : Prop where
  own : ∀ k n : ℕ, s.workers[k]? = some (some n) → n = k
  waiting : ∀ k : ℕ, s.workers[k]? = some none → s.confNum = k ∧ s.assigned = false

theorem inTime_step {s t : Launch} {a : LaunchAction} (hnum : s.Numbered workerNums)
    (hs : s.InTime) (h : When Launch.Prompt (Launch.Steps workerNums) s a t) : t.InTime := by
  obtain ⟨hprompt, h⟩ := h
  cases a with
  | assign =>
    obtain ⟨_, _, rfl⟩ := h
    refine ⟨hs.own, ?_⟩
    intro k hk
    -- the assignment comes when no thread is still to read
    exact absurd rfl (hprompt rfl none (List.mem_of_getElem? hk))
  | start =>
    obtain ⟨hassigned, rfl⟩ := h
    -- the value assigned is the index of the thread about to start
    have hcurrent : s.confNum = s.workers.length := by
      rw [hnum.length]
      simpa [hassigned] using hnum.current
    constructor
    · intro k n hk
      rw [List.getElem?_append] at hk
      split_ifs at hk with hlt
      · exact hs.own k n hk
      · rw [List.getElem?_singleton] at hk
        split_ifs at hk
        simp at hk
    · intro k hk
      rw [List.getElem?_append] at hk
      split_ifs at hk with hlt
      · -- an older thread would still be waiting while `main` has gone on
        have hidle := (hs.waiting k hk).2
        simp [hassigned] at hidle
      · rw [List.getElem?_singleton] at hk
        split_ifs at hk with hzero
        refine ⟨?_, rfl⟩
        change s.confNum = k
        omega
  | read j =>
    obtain ⟨hnone, rfl⟩ := h
    -- the waiting thread reads what was assigned for it
    obtain ⟨hconf, hidle⟩ := hs.waiting j hnone
    have hj : j < s.workers.length := (List.getElem?_eq_some_iff.mp hnone).1
    constructor
    · intro k n hk
      by_cases hkj : k = j
      · subst hkj
        rw [List.getElem?_set_self hj] at hk
        have hn : s.confNum = n := by simpa using hk
        rw [← hn, hconf]
      · rw [List.getElem?_set_ne (Ne.symm hkj)] at hk
        exact hs.own k n hk
    · intro k hk
      by_cases hkj : k = j
      · subst hkj
        rw [List.getElem?_set_self hj] at hk
        simp at hk
      · rw [List.getElem?_set_ne (Ne.symm hkj)] at hk
        exact hs.waiting k hk

theorem inTime_run {acts : List LaunchAction} {t : Launch}
    (hrun : Run (When Launch.Prompt (Launch.Steps workerNums)) {} acts t) : t.InTime := by
  have hnum : ({} : Launch).Numbered workerNums := numbered_run (.nil _)
  have hstart : ({} : Launch).InTime := by
    constructor <;> simp
  have hboth := hrun.invariant (fun s => s.Numbered workerNums ∧ s.InTime) ⟨hnum, hstart⟩
    (fun _ _ _ hs h => ⟨numbered_step hs.1 h.2, inTime_step hs.1 hs.2 h⟩)
  exact hboth.2

/-- Thread `k` has missed its number: it has read a later one, or will. -/
def Launch.Missed (k : ℕ) (s : Launch) : Prop :=
  (s.workers[k]? = some none ∧ k < s.confNum) ∨ ∃ n, s.workers[k]? = some (some n) ∧ k < n

theorem missed_step {k : ℕ} {s t : Launch} {a : LaunchAction} (hnum : s.Numbered workerNums)
    (hs : s.Missed k) (h : Launch.Steps workerNums s a t) : t.Missed k := by
  -- thread `k` has been started, and keeps its place in the list
  have hk : k < s.workers.length := by
    rcases hs with ⟨hk, _⟩ | ⟨n, hk, _⟩
    · exact (List.getElem?_eq_some_iff.mp hk).1
    · exact (List.getElem?_eq_some_iff.mp hk).1
  cases a with
  | assign =>
    obtain ⟨_, _, rfl⟩ := h
    rcases hs with ⟨hnone, _⟩ | hlate
    · left
      refine ⟨hnone, ?_⟩
      change k < s.num
      have hlength := hnum.length
      omega
    · exact Or.inr hlate
  | start =>
    obtain ⟨_, rfl⟩ := h
    have hold : (s.workers ++ [none])[k]? = s.workers[k]? := List.getElem?_append_left hk
    unfold Launch.Missed
    rw [hold]
    exact hs
  | read j =>
    obtain ⟨hnone, rfl⟩ := h
    by_cases hkj : k = j
    · subst hkj
      right
      have hset := List.getElem?_set_self (a := some s.confNum) hk
      rcases hs with ⟨_, hlate⟩ | ⟨n, hsome, _⟩
      · exact ⟨s.confNum, hset, hlate⟩
      · simp [hnone] at hsome
    · have hother : (s.workers.set j (some s.confNum))[k]? = s.workers[k]? :=
        List.getElem?_set_ne (Ne.symm hkj)
      unfold Launch.Missed
      rw [hother]
      exact hs

/-- When `main` does not wait for a thread, that thread gets a later number. -/
theorem missed_run {acts : List LaunchAction} {s s' t : Launch} {a : LaunchAction}
    (hs : s.Numbered workerNums) (hnot : ¬ s.Prompt a) (hstep : Launch.Steps workerNums s a s')
    (hrun : Run (Launch.Steps workerNums) s' acts t) : ∃ k, t.Missed k := by
  have hlate : a = .assign ∧ none ∈ s.workers := by
    simpa [Launch.Prompt] using hnot
  obtain ⟨rfl, hmem⟩ := hlate
  -- a thread that had not read yet when the next number was assigned
  obtain ⟨k, hk⟩ := List.getElem?_of_mem hmem
  have hs' := numbered_step hs hstep
  obtain ⟨_, _, rfl⟩ := hstep
  have hfirst : Launch.Missed k { s with confNum := s.num, assigned := true } := by
    left
    refine ⟨hk, ?_⟩
    have hlt : k < s.workers.length := (List.getElem?_eq_some_iff.mp hk).1
    change k < s.num
    rw [← hs.length]
    exact hlt
  have hboth := hrun.invariant (fun s => s.Numbered workerNums ∧ s.Missed k) ⟨hs', hfirst⟩
    (fun _ _ _ hs h => ⟨numbered_step hs.1 h, missed_step hs.1 hs.2 h⟩)
  exact ⟨k, hboth.2⟩

/-- If the numbers are all different, each thread has its own: the numbers are no smaller than
the places, and there are no more of them. -/
theorem own_of_nodup {t : Launch} (hnum : t.Numbered workerNums) (hready : t.Ready workerNums)
    (hnodup : t.workers.Nodup) (k n : ℕ) (hk : t.workers[k]? = some (some n)) : n = k := by
  -- from the last thread down to the first
  induction hleft : t.workers.length-k using Nat.strong_induction_on generalizing k n with
  | _ left ih =>
    have hidle : t.assigned = false := by
      by_contra hassigned
      exact hnum.more (by simpa using hassigned) hready.joined
    have hlt : k < t.workers.length := (List.getElem?_eq_some_iff.mp hk).1
    have hlower := hnum.lower k n hk
    have hupper : n < t.workers.length := by
      have hle := hnum.upper k n hk
      have hcurrent := hnum.current
      rw [hidle] at hcurrent
      simp only [Bool.false_eq_true, if_false] at hcurrent
      have hlength := hnum.length
      omega
    by_contra hne
    -- the thread in place `n` has the number `n` as well
    obtain ⟨x, hx⟩ : ∃ x, t.workers[n]? = some x := ⟨_, List.getElem?_eq_getElem hupper⟩
    cases x with
    | none => exact hready.numbered none (List.mem_of_getElem? hx) rfl
    | some m =>
      obtain rfl : m = n := ih _ (by omega) n m hx rfl
      have hsame : k = m := (List.getElem?_inj hlt hnodup).mp (hk.trans hx.symm)
      omega

theorem nodup_of_own {t : Launch} (hready : t.Ready workerNums)
    (hown : ∀ k n : ℕ, t.workers[k]? = some (some n) → n = k) : t.workers.Nodup := by
  rw [List.nodup_iff_getElem?_ne_getElem?]
  intro i j hij hj hsame
  obtain ⟨x, hx⟩ : ∃ x, t.workers[j]? = some x := ⟨_, List.getElem?_eq_getElem hj⟩
  cases x with
  | none => exact hready.numbered none (List.mem_of_getElem? hx) rfl
  | some n =>
    have hi := hown i n (hsame.trans hx)
    have hj := hown j n hx
    omega

theorem workerPrefix_injective : Function.Injective workerPrefix := by
  intro n m h
  exact decimal_injective (List.append_cancel_left h)

/-- In every interleaving of `main` with its threads the number of thread `k` is one from `k` up
to the last. The prefixes of the logs are all different exactly when `main` never assigns a
number before all threads have read theirs. -/
theorem prefixes_distinct_iff {acts : List LaunchAction} {t : Launch}
    (hrun : Run (Launch.Steps workerNums) {} acts t) (hready : t.Ready workerNums) :
    (∀ k n : ℕ, t.workers[k]? = some (some n) → k ≤ n ∧ (n : ℤ) < workerNums) ∧
      ((t.workers.map (Option.map workerPrefix)).Nodup ↔
        Run (When Launch.Prompt (Launch.Steps workerNums)) {} acts t) := by
  have hnum := numbered_run hrun
  constructor
  · intro k n hk
    have hpos : 0 ≤ workerNums := by
      rw [← hready.joined]
      exact Int.natCast_nonneg _
    exact ⟨hnum.lower k n hk, numbered_lt hnum hpos hk⟩
  · rw [List.nodup_map_iff (Option.map_injective workerPrefix_injective)]
    constructor
    · intro hnodup
      -- the first assignment made too early leaves a thread that reads another number
      rcases hrun.when_or Launch.Prompt with
        hprompt | ⟨before, after, a, m, m', _, hbefore, hnot, hstep, hafter⟩
      · exact hprompt
      · obtain ⟨k, hmissed⟩ := missed_run (numbered_run hbefore.of_when) hnot hstep hafter
        rcases hmissed with ⟨hnone, _⟩ | ⟨n, hsome, hlate⟩
        · exact absurd rfl (hready.numbered none (List.mem_of_getElem? hnone))
        · have hown := own_of_nodup hnum hready hnodup k n hsome
          omega
    · intro hprompt
      exact nodup_of_own hready (inTime_run hprompt).own

/-- Two workers, of which the first reads its number when `main` has assigned the second. -/
def sameNumber : Launch := { num := 2, confNum := 1, workers := [some 1, some 1] }

theorem sameNumber_run : Run (Launch.Steps 2) {}
    [.assign, .start, .assign, .start, .read 0, .read 1] sameNumber := by
  refine .cons ⟨rfl, by decide, rfl⟩ (.cons ⟨rfl, rfl⟩ (.cons ⟨rfl, by decide, rfl⟩ ?_))
  exact .cons ⟨rfl, rfl⟩ (.cons ⟨rfl, rfl⟩ (.single ⟨rfl, rfl⟩))

theorem prefixes_distinct_iff_same :
    (∀ k n : ℕ, sameNumber.workers[k]? = some (some n) → k ≤ n ∧ (n : ℤ) < 2) ∧
      ((sameNumber.workers.map (Option.map workerPrefix)).Nodup ↔
        Run (When Launch.Prompt (Launch.Steps 2)) {}
          [.assign, .start, .assign, .start, .read 0, .read 1] sameNumber) :=
  prefixes_distinct_iff sameNumber_run ⟨rfl, by decide⟩

end Numbers

section Buffer

/-- A digit takes one byte. -/
theorem decimal_length (n : ℕ) : (decimal n).length = n.repr.length := by
  have hdigit : ∀ d ∈ Nat.toDigits 10 n, (String.utf8EncodeChar d).length = 1 := by
    intro d hd
    have hrange := Char.isDigit_iff_toNat.mp
      (Nat.isDigit_of_mem_toDigits (by norm_num) le_rfl hd)
    have hascii : d.val.toNat ≤ 0x7f := hrange.2.trans (by decide)
    rw [String.utf8EncodeChar, if_pos hascii, List.length_singleton]
  have hones : (Nat.toDigits 10 n).map (fun d => (String.utf8EncodeChar d).length) =
      List.replicate (Nat.toDigits 10 n).length 1 := by
    rw [List.eq_replicate_iff]
    simpa using hdigit
  rw [decimal, Nat.toString_eq_ofList_toDigits, pathBytes_ofList, List.length_flatMap, hones,
    List.sum_replicate, smul_eq_mul, mul_one, Nat.repr_eq_ofList_toDigits, String.length_ofList]

theorem workerPrefix_length (n : ℕ) : (workerPrefix n).length = 12+n.repr.length := by
  have hword : (str "JudgeWorker ").length = 12 := by decide
  rw [workerPrefix, List.length_append, hword, decimal_length]

/-- The prefix fits the buffer with seven digits, and is what the log takes from it. -/
theorem initLog_eq_some_iff (n : ℕ) :
    initLog n = some (({} : Log).setPrefix (workerPrefix n)) ↔ n < 10^7 := by
  have hfits := sprintf_isSome_iff (List.replicate 20 0) (workerPrefix n)
  rw [List.length_replicate, workerPrefix_length] at hfits
  -- twelve bytes of text and the NUL leave seven for the digits
  have hdigits := Nat.length_repr_le_iff (n := n) (by norm_num : 0 < 7)
  have hnul : 0 ∉ workerPrefix n := by
    have hword : 0 ∉ str "JudgeWorker " := by decide
    simp [workerPrefix, hword, nul_notMem_decimal]
  rw [← hdigits]
  cases hprint : sprintf (List.replicate 20 0) (workerPrefix n) with
  | none =>
    have hlong : ¬ 12+n.repr.length+1 ≤ 20 := by
      intro hle
      obtain ⟨buffer, hbuffer⟩ := hfits.mpr hle
      rw [hprint] at hbuffer
      cases hbuffer
    have hnone : initLog n = none := by
      simp only [initLog, hprint, Option.bind_eq_bind, Option.bind_none]
    rw [hnone]
    constructor
    · simp
    · intro hle
      omega
  | some buffer =>
    have hle := hfits.mp ⟨buffer, hprint⟩
    have hread : cString buffer = workerPrefix n := sprintf_cString hprint hnul
    have hlog : initLog n = some (({} : Log).setPrefix (workerPrefix n)) := by
      simp only [initLog, hprint, Option.bind_eq_bind, Option.bind_some, hread, Option.pure_def]
    simp only [hlog, true_iff]
    omega

/-- The state of `main` after `count` workers that were all in time. -/
def Launch.inOrder (count : ℕ) : Launch where
  num := count
  confNum := count-1
  workers := (List.range count).map some

theorem inOrder_run {workerNums : ℤ} (count : ℕ) (hmore : ∀ i < count, (i : ℤ) ≠ workerNums) :
    ∃ acts, Run (When Launch.Prompt (Launch.Steps workerNums)) {} acts (.inOrder count) := by
  induction count with
  | zero => exact ⟨[], .nil _⟩
  | succ count ih =>
    obtain ⟨acts, hrun⟩ := ih fun i hi => hmore i (by omega)
    let before := Launch.inOrder count
    let assigned : Launch := { before with confNum := count, assigned := true }
    let started : Launch :=
      { assigned with num := count+1, assigned := false, workers := before.workers ++ [none] }
    have hassign : When Launch.Prompt (Launch.Steps workerNums) before .assign assigned :=
      ⟨by simp [Launch.Prompt, before, Launch.inOrder], rfl, hmore count (by omega), rfl⟩
    have hstart : When Launch.Prompt (Launch.Steps workerNums) assigned .start started :=
      ⟨by simp [Launch.Prompt], rfl, rfl⟩
    have hread : When Launch.Prompt (Launch.Steps workerNums) started (.read count)
        (.inOrder (count+1)) := by
      refine ⟨by simp [Launch.Prompt], ?_, ?_⟩
      · simp [started, before, Launch.inOrder]
      · simp [started, assigned, before, Launch.inOrder, List.range_succ]
    exact ⟨_, hrun.append (.cons hassign (.cons hstart (.single hread)))⟩

theorem inOrder_last (count : ℕ) : some count ∈ (Launch.inOrder (count+1)).workers :=
  List.mem_map_of_mem (List.mem_range.mpr (Nat.lt_succ_self count))

/-- No worker writes behind its buffer, in any interleaving, exactly when there are no more than
ten million of them. -/
theorem prefix_fits_iff (workerNums : ℤ) :
    (∀ (acts : List LaunchAction) (t : Launch), Run (Launch.Steps workerNums) {} acts t →
      ∀ n, some n ∈ t.workers → initLog n = some (({} : Log).setPrefix (workerPrefix n))) ↔
      0 ≤ workerNums ∧ workerNums ≤ 10^7 := by
  constructor
  · intro hfits
    by_contra hbound
    have hmore : ∀ i < 10^7+1, ((i : ℕ) : ℤ) ≠ workerNums := by
      intro i hi
      omega
    -- the last of so many workers has a number with eight digits
    obtain ⟨acts, hrun⟩ := inOrder_run (10^7+1) hmore
    have hlog := hfits acts _ hrun.of_when (10^7) (inOrder_last _)
    have hlt := (initLog_eq_some_iff (10^7)).mp hlog
    exact lt_irrefl _ hlt
  · intro hbound acts t hrun n hn
    obtain ⟨k, hk⟩ := List.getElem?_of_mem hn
    have hlt := numbered_lt (numbered_run hrun) hbound.1 hk
    apply (initLog_eq_some_iff n).mpr
    have hle := hbound.2
    omega

end Buffer

end OnlineJudge
