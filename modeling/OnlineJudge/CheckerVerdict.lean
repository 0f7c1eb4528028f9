import OnlineJudge.CheckerTotal

/-! Which pairs of output files `Checker::run` accepts, which it classifies, and the verdict on
files of text. -/
namespace OnlineJudge

section Acceptance
variable {pagesize : ℕ} {userout rightout : FileView}

theorem comparison_accepts {code : ReturnCode} {result : JudgeResult}
    (h : comparison userout rightout = (code, result)) :
    (code = .kOk ↔ TakenEqual userout rightout) ∧
      (result = .kAC ↔ TakenEqual userout rightout) := by
  rcases comparison_cases h with ⟨htaken, rfl, rfl⟩ | ⟨htaken, rfl, ⟨_, rfl⟩ | ⟨_, rfl⟩⟩
  · simp [htaken]
  · simp [htaken]
  · simp [htaken]

theorem checker_accepts_iff (hpage : kMaxLength < pagesize) (out : ReturnCode × Checker)
    (hrun : Checker.run pagesize userout rightout = .ok out) :
    (out.1 = .kOk ∨ out.2.result = .kAC) ↔
      Comparable userout rightout ∧ TakenEqual userout rightout := by
  by_cases hcmp : Comparable userout rightout
  · obtain ⟨code, c, hok, hc⟩ := checker_run_compared pagesize hpage hcmp
    have hout : (code, c) = out := call_ok_unique hok hrun
    have ⟨hcode, hres⟩ := comparison_accepts hc
    rw [← hout]
    dsimp only
    rw [hcode, hres]
    simp [hcmp]
  -- without a comparison the result is `kOLE` or still that of the constructor
  · have hrej : ¬ (out.1 = .kOk ∨ out.2.result = .kAC) := by
      by_cases hlen : userout.fstat = true ∧ kMaxLength < userout.data.length
      · have hole := checker_run_tooLong pagesize rightout hlen.1 hlen.2
        rw [← call_ok_unique hole hrun]
        simp
      · obtain ⟨c, hunread, hc⟩ := checker_run_unread pagesize hcmp hlen
        rw [← call_ok_unique hunread hrun]
        simp [hc]
    simp [hrej, hcmp]

end Acceptance

/-- The bytes behind a C string, which `isEqualStr` does not compare. -/
def fromNul (s : Bytes) : Bytes := s.dropWhile (· != 0)

theorem cString_append_fromNul (s : Bytes) : cString s ++ fromNul s = s :=
  List.takeWhile_append_dropWhile

/-- Only equal files are accepted, unless two files of one size as an `int32_t` agree in front of
the first NUL and differ behind it. -/
theorem checker_sound_iff (pagesize : ℕ) (hpage : kMaxLength < pagesize)
    (userout rightout : FileView) :
    (∀ out, Checker.run pagesize userout rightout = .ok out →
      out.1 = .kOk ∨ out.2.result = .kAC → userout.data = rightout.data) ↔
    (Comparable userout rightout → TakenEqual userout rightout →
      fromNul userout.data = fromNul rightout.data) := by
  constructor
  · intro h hcmp htaken
    -- the pair is accepted, so by hypothesis the files are equal
    obtain ⟨out, hrun, _⟩ := checker_run_returns pagesize hpage userout rightout
    have hacc := (checker_accepts_iff hpage out hrun).mpr ⟨hcmp, htaken⟩
    rw [h out hrun hacc]
  · intro h out hrun hacc
    have ⟨hcmp, htaken⟩ := (checker_accepts_iff hpage out hrun).mp hacc
    calc
      userout.data = cString userout.data ++ fromNul userout.data :=
        (cString_append_fromNul userout.data).symm
      _ = cString rightout.data ++ fromNul rightout.data := by rw [htaken.2, h hcmp htaken]
      _ = rightout.data := cString_append_fromNul rightout.data

theorem checker_sound_iff_text :
    (∀ out, Checker.run 4096 { data := [97, 10] } { data := [97, 10] } = .ok out →
      out.1 = .kOk ∨ out.2.result = .kAC → ([97, 10] : Bytes) = [97, 10]) ↔
    (Comparable { data := [97, 10] } { data := [97, 10] } →
      TakenEqual { data := [97, 10] } { data := [97, 10] } →
        fromNul [97, 10] = fromNul [97, 10]) :=
  checker_sound_iff 4096 (by decide) { data := [97, 10] } { data := [97, 10] }

/-- Two files of three bytes that differ behind a NUL. -/
theorem checker_accepts_nul :
    Checker.run 4096 { data := [97, 0, 98] } { data := [97, 0, 99] } = .ok (.kOk, ⟨.kAC, 3, 3⟩) ∧
      ([97, 0, 98] : Bytes) ≠ [97, 0, 99] := by
  constructor
  · decide +kernel
  · decide

section Readable
variable {pagesize : ℕ} {U E : Bytes}

/-- Files that can be read are compared when neither is empty and the user's is within the
limit. -/
theorem comparable_iff (hE : E.length < 2^31) :
    Comparable { data := U } { data := E } ↔
      0 < U.length ∧ U.length ≤ kMaxLength ∧ 0 < E.length := by
  constructor
  · intro h
    have hpos := h.rightout_pos
    rw [toInt32_of_lt hE] at hpos
    exact ⟨h.userout_pos, h.userout_le, Int.natCast_pos.mp hpos⟩
  · intro ⟨hpos, hle, hright⟩
    refine ⟨rfl, rfl, rfl, rfl, hpos, hle, ?_⟩
    rw [toInt32_of_lt hE]
    exact Int.natCast_pos.mpr hright

theorem takenEqual_iff (hE : E.length < 2^31) :
    TakenEqual { data := U } { data := E } ↔ E.length = U.length ∧ cString U = cString E := by
  unfold TakenEqual
  dsimp only
  rw [toInt32_of_lt hE, Int.natCast_inj]

theorem take_toInt32 (hE : E.length < 2^31) : E.take (toInt32 E.length).toNat = E := by
  rw [toInt32_of_lt hE, Int.toNat_natCast, List.take_length]

end Readable

/-- An output file that equals the expected one is accepted, and one over the limit is not,
whatever is expected. -/
theorem checker_equal_files (pagesize : ℕ) (hpage : kMaxLength < pagesize) (E : Bytes)
    (hpos : 0 < E.length) (hlt : E.length < 2^31) :
    (E.length ≤ kMaxLength → ∃ c, Checker.run pagesize { data := E } { data := E } =
      .ok (.kOk, c) ∧ c.result = .kAC) ∧
    (kMaxLength < E.length → ∃ c, Checker.run pagesize { data := E } { data := E } =
      .ok (.kError, c) ∧ c.result = .kOLE) := by
  constructor
  · intro hle
    have hcmp : Comparable { data := E } { data := E } := (comparable_iff hlt).mpr ⟨hpos, hle, hpos⟩
    have htaken : TakenEqual { data := E } { data := E } := (takenEqual_iff hlt).mpr ⟨rfl, rfl⟩
    obtain ⟨code, c, hrun, hc⟩ := checker_run_compared pagesize hpage hcmp
    have hcode := (comparison_accepts hc).1.mpr htaken
    have hres := (comparison_accepts hc).2.mpr htaken
    rw [hcode] at hrun
    exact ⟨c, hrun, hres⟩
  · intro hlong
    exact ⟨_, checker_run_tooLong pagesize _ rfl hlong, rfl⟩

theorem checker_equal_files_two :
    ∃ c, Checker.run 4096 { data := [97, 10] } { data := [97, 10] } =
      .ok (.kOk, c) ∧ c.result = .kAC :=
  (checker_equal_files 4096 (by decide) [97, 10] (by decide) (by decide)).1 (by decide)

/-- A correct answer of 1001 bytes. -/
theorem checker_equal_files_long :
    ¬ ∃ c, Checker.run 4096 { data := List.replicate 1001 97 } { data := List.replicate 1001 97 } =
      .ok (.kOk, c) ∧ c.result = .kAC := by
  intro ⟨c, hrun, _⟩
  have hlong : kMaxLength < (List.replicate 1001 (97 : UInt8)).length := by
    rw [List.length_replicate]
    decide
  let long : FileView := { data := List.replicate 1001 97 }
  have hfstat : long.fstat = true := rfl
  have hole := checker_run_tooLong 4096 long hfstat hlong
  rw [hole] at hrun
  simp at hrun

/-- The verdict of a check that is over, on a user's file `U`. -/
structure Classified (U : Bytes) (out : ReturnCode × Checker) : Prop where
  known : out.2.result ≠ .kUKE
  tooLong : out.2.result = .kOLE ↔ kMaxLength < U.length
  compared : ¬ kMaxLength < U.length →
    out.2.result = .kAC ∨ out.2.result = .kPE ∨ out.2.result = .kWA
  code : out.1 = .kOk ↔ out.2.result = .kAC

/-- Every output is classified, unless one of the files is empty and the user's is within the
limit. -/
theorem checker_classifies_iff (pagesize : ℕ) (hpage : kMaxLength < pagesize) (U E : Bytes)
    (hE : E.length < 2^31) :
    (∃ out, Checker.run pagesize { data := U } { data := E } = .ok out ∧ Classified U out) ↔
      kMaxLength < U.length ∨ (0 < U.length ∧ 0 < E.length) := by
  -- too long, both files mapped, or one of them empty: then `mmap` fails and `kUKE` stays
  by_cases hlong : kMaxLength < U.length
  · have hfstat : ({ data := U } : FileView).fstat = true := rfl
    have hole := checker_run_tooLong pagesize { data := E } hfstat hlong
    have hclass : Classified U (.kError, { result := .kOLE }) := by
      constructor <;> simp [hlong]
    simp [hole, hclass, hlong]
  · have hlen : ¬ (({ data := U } : FileView).fstat = true ∧ kMaxLength < U.length) :=
      fun h => hlong h.2
    by_cases hempty : 0 < U.length ∧ 0 < E.length
    · have hcmp : Comparable { data := U } { data := E } :=
        (comparable_iff hE).mpr ⟨hempty.1, not_lt.mp hlong, hempty.2⟩
      obtain ⟨code, c, hrun, hc⟩ := checker_run_compared pagesize hpage hcmp
      have hclass : Classified U (code, c) := by
        rcases comparison_cases hc with ⟨_, rfl, hres⟩ | ⟨_, rfl, ⟨_, hres⟩ | ⟨_, hres⟩⟩
        · constructor <;> simp [hres, hlong]
        · constructor <;> simp [hres, hlong]
        · constructor <;> simp [hres, hlong]
      exact ⟨fun _ => Or.inr hempty, fun _ => ⟨_, hrun, hclass⟩⟩
    · have hcmp : ¬ Comparable { data := U } { data := E } := by
        intro h
        have hpos := (comparable_iff hE).mp h
        exact hempty ⟨hpos.1, hpos.2.2⟩
      obtain ⟨c, hrun, hc⟩ := checker_run_unread pagesize hcmp hlen
      constructor
      · intro ⟨out, hout, hclass⟩
        rw [hrun] at hout
        rw [← Except.ok.inj hout] at hclass
        exact absurd hc hclass.known
      · intro h
        rcases h with h | h
        · exact absurd h hlong
        · exact absurd h hempty

theorem checker_classifies_iff_blank :
    ∃ out, Checker.run 4096 { data := [32] } { data := [97] } = .ok out ∧ Classified [32] out :=
  (checker_classifies_iff 4096 (by decide) [32] [97] (by decide)).mpr (by decide)

theorem checker_unclassified_empty :
    Checker.run 4096 { data := [] } { data := [97] } = .ok (.kError, ⟨.kUKE, 0, 1⟩) := by
  decide +kernel

theorem checker_text_verdict (pagesize : ℕ) (hpage : kMaxLength < pagesize) (U E : Bytes)
    (hUnul : (0 : UInt8) ∉ U) (hEnul : (0 : UInt8) ∉ E) (hUpos : 1 ≤ U.length)
    (hUle : U.length ≤ kMaxLength) (hEpos : 1 ≤ E.length) (hElt : E.length < 2^31) :
    ∃ code c, Checker.run pagesize { data := U } { data := E } = .ok (code, c) ∧
      (c.result = .kAC ↔ U = E) ∧
      (c.result = .kPE ↔ U ≠ E ∧ deleteBlanks U = deleteBlanks E) ∧
      (c.result = .kWA ↔ U ≠ E ∧ deleteBlanks U ≠ deleteBlanks E) ∧
      (code = .kOk ↔ c.result = .kAC) := by
  have hcmp : Comparable { data := U } { data := E } :=
    (comparable_iff hElt).mpr ⟨hUpos, hUle, hEpos⟩
  obtain ⟨code, c, hrun, hc⟩ := checker_run_compared pagesize hpage hcmp
  -- without NUL bytes the two C strings are the whole files
  have htext : TakenEqual { data := U } { data := E } ↔ U = E := by
    rw [takenEqual_iff hElt, cString_of_text hUnul, cString_of_text hEnul]
    constructor
    · intro h
      exact h.2
    · intro h
      exact ⟨by rw [h], h⟩
  have hbranch := comparison_cases hc
  dsimp only at hbranch
  rw [htext, take_toInt32 hElt] at hbranch
  refine ⟨code, c, hrun, ?_⟩
  rcases hbranch with ⟨heq, rfl, hres⟩ | ⟨hne, rfl, ⟨hblank, hres⟩ | ⟨hblank, hres⟩⟩
  · simp [hres, heq]
  · simp [hres, hne, hblank]
  · simp [hres, hne, hblank]

theorem checker_text_verdict_blank :
    ∃ code c, Checker.run 4096 { data := [97, 32, 10] } { data := [97, 10] } = .ok (code, c) ∧
      (c.result = .kAC ↔ ([97, 32, 10] : Bytes) = [97, 10]) ∧
      (c.result = .kPE ↔ ([97, 32, 10] : Bytes) ≠ [97, 10] ∧
        deleteBlanks [97, 32, 10] = deleteBlanks [97, 10]) ∧
      (c.result = .kWA ↔ ([97, 32, 10] : Bytes) ≠ [97, 10] ∧
        deleteBlanks [97, 32, 10] ≠ deleteBlanks [97, 10]) ∧
      (code = .kOk ↔ c.result = .kAC) :=
  checker_text_verdict 4096 (by decide) [97, 32, 10] [97, 10] (by decide) (by decide) (by decide)
    (by decide) (by decide) (by decide)

end OnlineJudge
