import OnlineJudge.CheckerText

/-! `Checker::run` always returns: the zero fill behind the user's file stops `isEqualStr`. It
ends in one of three ways: an output over the limit, files that cannot be mapped, and a verdict
of the two comparisons. -/
namespace OnlineJudge

theorem le_pageEnd (pagesize len : ℕ) (hp : 0 < pagesize) : len ≤ pageEnd pagesize len := by
  have hdiv := Nat.div_add_mod (len+pagesize-1) pagesize
  have hmod := Nat.mod_lt (len+pagesize-1) hp
  have hcomm := Nat.mul_comm pagesize ((len+pagesize-1)/pagesize)
  unfold pageEnd
  omega

theorem takeD_mem_default {α : Type} (a : α) (l : List α) (n : ℕ) (h : l.length < n) :
    a ∈ l.takeD n a := by
  induction n generalizing l with
  | zero => omega
  | succ n ih =>
    cases l with
    | nil => simp [List.takeD]
    | cons b l =>
      have := ih l (by simpa using h)
      simp [List.takeD, this]

theorem takeD_take {α : Type} (a : α) (l : List α) {k n : ℕ} (hk : k ≤ l.length) (hn : k ≤ n) :
    (l.takeD n a).take k = l.take k := by
  induction n generalizing l k with
  | zero =>
    have hzero : k = 0 := by omega
    simp [hzero]
  | succ n ih =>
    cases k with
    | zero => rfl
    | succ k =>
      cases l with
      | nil => simp at hk
      | cons b l =>
        have htail := ih l (by simpa using hk) (by omega)
        simpa [List.takeD] using htail

theorem cString_takeD (s : Bytes) (n : ℕ) : cString (s.takeD n 0) = (cString s).take n := by
  induction n generalizing s with
  | zero => simp [List.takeD, cString]
  | succ n ih =>
    cases s with
    | nil => simp [List.takeD, cString]
    | cons c s =>
      by_cases hc : c = 0
      · simp [List.takeD, hc]
      · simp [List.takeD, cString_cons hc, ih]

theorem cString_length_le (s : Bytes) : (cString s).length ≤ s.length :=
  (List.takeWhile_prefix _).length_le

theorem toInt32_of_lt {n : ℕ} (h : n < 2^31) : toInt32 n = n := by
  unfold toInt32
  rw [Int.bmod_eq_of_le]
  · omega
  · omega

theorem toInt32_of_le_max {n : ℕ} (h : n ≤ kMaxLength) : toInt32 n = n :=
  toInt32_of_lt (by unfold kMaxLength at h; omega)

/-- The verdicts that the checker leaves with `kError`. -/
def JudgeResult.IsRejection (r : JudgeResult) : Prop :=
  r = .kUKE ∨ r = .kOLE ∨ r = .kPE ∨ r = .kWA

theorem JudgeResult.IsRejection.ne_accepted {r : JudgeResult} (h : r.IsRejection) :
    r ≠ .kAC := by
  rcases h with h | h | h | h <;> simp [h]

/-- How a check can end: `kOk` with `kAC`, or `kError` with another verdict. -/
def Checked (out : ReturnCode × Checker) : Prop :=
  (out.1 = .kOk ∧ out.2.result = .kAC) ∨ (out.1 = .kError ∧ out.2.result.IsRejection)

/-- The checks in front of the comparisons: both files have a size, which is positive as an
`int32_t` and for the user's file not over the limit, and both are mapped. -/
structure Comparable (userout rightout : FileView) : Prop where
  userout_fstat : userout.fstat = true
  rightout_fstat : rightout.fstat = true
  userout_mmap : userout.mmap = true
  rightout_mmap : rightout.mmap = true
  userout_pos : 0 < userout.data.length
  userout_le : userout.data.length ≤ kMaxLength
  rightout_pos : 0 < toInt32 rightout.data.length

/-- `isEqualLength` on the lengths as `int32_t`, and `isEqualStr`. -/
def TakenEqual (userout rightout : FileView) : Prop :=
  toInt32 rightout.data.length = userout.data.length ∧ cString userout.data = cString rightout.data

instance (userout rightout : FileView) : Decidable (TakenEqual userout rightout) :=
  inferInstanceAs (Decidable (_ ∧ _))

def comparison (userout rightout : FileView) : ReturnCode × JudgeResult :=
  if TakenEqual userout rightout then (.kOk, .kAC)
  else if deleteBlanks userout.data =
    deleteBlanks (rightout.data.take (toInt32 rightout.data.length).toNat) then (.kError, .kPE)
  else (.kError, .kWA)

theorem comparison_cases {userout rightout : FileView} {code : ReturnCode} {result : JudgeResult}
    (h : comparison userout rightout = (code, result)) :
    (TakenEqual userout rightout ∧ code = .kOk ∧ result = .kAC) ∨
    (¬ TakenEqual userout rightout ∧ code = .kError ∧
      (deleteBlanks userout.data =
          deleteBlanks (rightout.data.take (toInt32 rightout.data.length).toNat) ∧ result = .kPE ∨
        deleteBlanks userout.data ≠
          deleteBlanks (rightout.data.take (toInt32 rightout.data.length).toNat) ∧
          result = .kWA)) := by
  unfold comparison at h
  split_ifs at h with htaken hblank
  · obtain ⟨rfl, rfl⟩ := Prod.mk.inj h
    exact Or.inl ⟨htaken, rfl, rfl⟩
  · obtain ⟨rfl, rfl⟩ := Prod.mk.inj h
    exact Or.inr ⟨htaken, rfl, Or.inl ⟨hblank, rfl⟩⟩
  · obtain ⟨rfl, rfl⟩ := Prod.mk.inj h
    exact Or.inr ⟨htaken, rfl, Or.inr ⟨hblank, rfl⟩⟩

theorem toInt32_toNat_le (n : ℕ) : (toInt32 n).toNat ≤ n := by
  have hle : toInt32 n ≤ n := by
    unfold toInt32
    rw [Int.bmod_def]
    split_ifs <;> omega
  omega

/-- What `checkOutLength` establishes when it lets the check go on. -/
structure Measured (userout rightout : FileView) (c : Checker) : Prop where
  result : c.result = .kUKE
  useroutLen : c.useroutLen = userout.data.length
  rightoutLen : c.rightoutLen = toInt32 rightout.data.length

section Run
variable (pagesize : ℕ) {userout rightout : FileView}

theorem checkOutLength_ok (hfu : userout.fstat = true) (hfr : rightout.fstat = true)
    (hle : userout.data.length ≤ kMaxLength) :
    ∃ c, checkOutLength {} userout rightout = (.kOk, c) ∧ Measured userout rightout c := by
  have hlen : ¬ userout.data.length > kMaxLength := not_lt.mpr hle
  have hcast := toInt32_of_le_max hle
  unfold checkOutLength
  dsimp only
  rw [if_neg (by simp [hfu]), if_neg hlen, if_neg (by simp [hfr])]
  refine ⟨_, rfl, ?_⟩
  constructor <;> simp only [hcast]

theorem memoryMap_some {file : FileView} {len : ℤ} (hpos : 0 < len) (hmmap : file.mmap = true) :
    memoryMap pagesize file len = some (file.data.takeD (pageEnd pagesize len.toNat) 0) :=
  if_pos ⟨hpos, hmmap⟩

theorem memoryMap_none {file : FileView} {len : ℤ} (h : ¬ (0 < len ∧ file.mmap = true)) :
    memoryMap pagesize file len = none :=
  if_neg h

theorem checker_run_tooLong (rightout : FileView) (hfstat : userout.fstat = true)
    (hlen : kMaxLength < userout.data.length) :
    Checker.run pagesize userout rightout = .ok (.kError, { result := .kOLE }) := by
  have hout : checkOutLength {} userout rightout = (.kError, { result := .kOLE }) := by
    unfold checkOutLength
    rw [if_neg (by simp [hfstat]), if_pos hlen]
  simp only [Checker.run, hout]

/-- A file without a size, an empty file and a file that `mmap` refuses leave the verdict of the
constructor. -/
theorem checker_run_unread (hcmp : ¬ Comparable userout rightout)
    (hlen : ¬ (userout.fstat = true ∧ kMaxLength < userout.data.length)) :
    ∃ c, Checker.run pagesize userout rightout = .ok (.kError, c) ∧ c.result = .kUKE := by
  by_cases hfu : userout.fstat = true
  · have hle : userout.data.length ≤ kMaxLength := not_lt.mp fun h => hlen ⟨hfu, h⟩
    by_cases hfr : rightout.fstat = true
    · obtain ⟨c, hout, hm⟩ := checkOutLength_ok hfu hfr hle
      refine ⟨c, ?_, hm.result⟩
      unfold Checker.run
      rw [hout]
      dsimp only
      rw [hm.useroutLen, hm.rightoutLen]
      by_cases hu : 0 < (userout.data.length : ℤ) ∧ userout.mmap = true
      -- the user's file is mapped, so the other one is not
      · have hr : ¬ (0 < toInt32 rightout.data.length ∧ rightout.mmap = true) := by
          intro hr
          have hpos : 0 < userout.data.length := Int.natCast_pos.mp hu.1
          exact hcmp ⟨hfu, hfr, hu.2, hr.2, hpos, hle, hr.1⟩
        rw [memoryMap_some pagesize hu.1 hu.2, memoryMap_none pagesize hr]
      · rw [memoryMap_none pagesize hu]
    · have hout : checkOutLength {} userout rightout =
          (.kError, { useroutLen := toInt32 userout.data.length }) := by
        unfold checkOutLength
        rw [if_neg (by simp [hfu]), if_neg (not_lt.mpr hle)]
        simp only [hfr, Bool.not_false, if_true]
      refine ⟨{ useroutLen := toInt32 userout.data.length }, ?_, rfl⟩
      simp only [Checker.run, hout]
  · have hout : checkOutLength {} userout rightout = (.kError, {}) := by
      unfold checkOutLength
      rw [if_pos (by simp [hfu])]
    refine ⟨{}, ?_, rfl⟩
    simp only [Checker.run, hout]

theorem pageEnd_eq {len : ℕ} (hpos : 0 < len) (hlt : len < pagesize) :
    pageEnd pagesize len = pagesize := by
  have hone : (len+pagesize-1)/pagesize = 1 := Nat.div_eq_of_lt_le (by omega) (by omega)
  rw [pageEnd, hone, Nat.one_mul]

/-- The user's file is followed by zeros in its page, so the comparison with a file mapped as far
ends at the first NUL of one of the two. -/
theorem isEqualStr_mapped (rightout : FileView) (hlt : userout.data.length < pagesize) :
    isEqualStr (userout.data.takeD pagesize 0) (rightout.data.takeD pagesize 0) =
      some (decide (cString userout.data = cString rightout.data)) := by
  have hnul := takeD_mem_default 0 userout.data pagesize hlt
  obtain ⟨b, hb⟩ := isEqualStr_isSome (userout.data.takeD pagesize 0)
    (rightout.data.takeD pagesize 0) hnul (by simp)
  have hshort : (cString userout.data).length < pagesize := by
    have := cString_length_le userout.data
    omega
  have hiff : b = true ↔ cString userout.data = cString rightout.data := by
    rw [isEqualStr_eq hb, cString_takeD, cString_takeD, List.take_of_length_le hshort.le]
    constructor
    · intro h
      have hlen := congrArg List.length h
      rw [List.length_take] at hlen
      rw [h, List.take_of_length_le (by omega)]
    · intro h
      rw [← h, List.take_of_length_le hshort.le]
  rw [hb, Option.some.injEq]
  cases b <;> simp_all

theorem isPE_mapped (hp : 0 < pagesize) {len len' : ℕ} (hl : len ≤ userout.data.length)
    (hl' : len' ≤ rightout.data.length) :
    isPE (userout.data.takeD (pageEnd pagesize len) 0)
      (rightout.data.takeD (pageEnd pagesize len') 0) len len' =
      some (decide (deleteBlanks (userout.data.take len) =
        deleteBlanks (rightout.data.take len'))) := by
  have hu := le_pageEnd pagesize len hp
  have hr := le_pageEnd pagesize len' hp
  rw [isPE_eq (by simpa using hu) (by simpa using hr), takeD_take 0 _ hl hu, takeD_take 0 _ hl' hr]

theorem checker_run_compared (hpage : kMaxLength < pagesize) (h : Comparable userout rightout) :
    ∃ code c, Checker.run pagesize userout rightout = .ok (code, c) ∧
      comparison userout rightout = (code, c.result) := by
  have hlt : userout.data.length < pagesize := lt_of_le_of_lt h.userout_le hpage
  obtain ⟨c, hout, hm⟩ := checkOutLength_ok h.userout_fstat h.rightout_fstat h.userout_le
  have hul : 0 < (userout.data.length : ℤ) := Int.natCast_pos.mpr h.userout_pos
  have hmu := memoryMap_some pagesize hul h.userout_mmap
  have hmr := memoryMap_some pagesize h.rightout_pos h.rightout_mmap
  have hpe := isPE_mapped pagesize (by omega)
    (le_refl userout.data.length) (toInt32_toNat_le rightout.data.length)
  rw [List.take_length] at hpe
  unfold Checker.run
  rw [hout]
  dsimp only
  rw [hm.useroutLen, hm.rightoutLen, hmu, hmr]
  dsimp only
  rw [Int.toNat_natCast, hpe]
  by_cases heq : toInt32 rightout.data.length = userout.data.length
  -- lengths that agree: both mappings end with the page of the user's file
  · have hstr := isEqualStr_mapped pagesize rightout hlt
    have hend := pageEnd_eq pagesize h.userout_pos hlt
    rw [heq, Int.toNat_natCast] at hpe ⊢
    rw [hend, hstr, if_neg (not_not.mpr rfl)]
    by_cases htext : cString userout.data = cString rightout.data
    · have htaken : TakenEqual userout rightout := ⟨heq, htext⟩
      simp only [comparison, if_pos htaken, htext, decide_true, mapped, call_ok_bind]
      exact ⟨_, _, rfl, rfl⟩
    · have htaken : ¬ TakenEqual userout rightout := fun h => htext h.2
      simp only [comparison, if_neg htaken, htext, decide_false, mapped, call_ok_bind, heq,
        Int.toNat_natCast, decide_eq_true_eq, Bool.false_eq_true, if_false]
      split_ifs
      · exact ⟨_, _, rfl, rfl⟩
      · exact ⟨_, _, rfl, rfl⟩
  -- other lengths: `isPE` decides between the two verdicts
  · have htaken : ¬ TakenEqual userout rightout := fun h => heq h.1
    rw [if_pos (Ne.symm heq)]
    simp only [comparison, if_neg htaken, mapped, call_ok_bind, decide_eq_true_eq]
    split_ifs
    · exact ⟨_, _, rfl, rfl⟩
    · exact ⟨_, _, rfl, rfl⟩

example : Checker.run 4096 ⟨[97, 10], true, true⟩ ⟨[97, 10], true, true⟩ =
    .ok (.kOk, ⟨.kAC, 2, 2⟩) := by decide +kernel

example : Checker.run 4096 ⟨[97, 32, 10], true, true⟩ ⟨[97, 10], true, true⟩ =
    .ok (.kError, ⟨.kPE, 3, 2⟩) := by decide +kernel

end Run

theorem checker_run_returns (pagesize : ℕ) (hpage : kMaxLength < pagesize)
    (userout rightout : FileView) :
    ∃ out, Checker.run pagesize userout rightout = .ok out ∧ Checked out := by
  by_cases hlen : userout.fstat = true ∧ kMaxLength < userout.data.length
  · have hole := checker_run_tooLong pagesize rightout hlen.1 hlen.2
    exact ⟨_, hole, Or.inr ⟨rfl, Or.inr (Or.inl rfl)⟩⟩
  · by_cases hcmp : Comparable userout rightout
    · obtain ⟨code, c, hrun, hc⟩ := checker_run_compared pagesize hpage hcmp
      refine ⟨(code, c), hrun, ?_⟩
      rcases comparison_cases hc with ⟨_, hcode, hres⟩ | ⟨_, hcode, ⟨_, hres⟩ | ⟨_, hres⟩⟩
      · exact Or.inl ⟨hcode, hres⟩
      · exact Or.inr ⟨hcode, Or.inr (Or.inr (Or.inl hres))⟩
      · exact Or.inr ⟨hcode, Or.inr (Or.inr (Or.inr hres))⟩
    · obtain ⟨c, hrun, hc⟩ := checker_run_unread pagesize hcmp hlen
      exact ⟨_, hrun, Or.inr ⟨rfl, Or.inl hc⟩⟩

end OnlineJudge
