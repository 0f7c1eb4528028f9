import OnlineJudge.Checker

/-! What the two comparisons of `Checker::run` decide: `isEqualStr` compares the texts in front
of the first NUL, `isPE` the files without their white space. -/
namespace OnlineJudge

/-- The C string at the start of a buffer. -/
def cString (s : Bytes) : Bytes := s.takeWhile (· != 0)

@[simp] theorem cString_zero (s : Bytes) : cString (0 :: s) = [] := by simp [cString]

theorem cString_cons {c : UInt8} (hc : c ≠ 0) (s : Bytes) : cString (c :: s) = c :: cString s := by
  simp [cString, hc]

theorem cString_of_text {s : Bytes} (h : (0 : UInt8) ∉ s) : cString s = s := by
  apply List.takeWhile_eq_self_iff.mpr
  intro c hc
  have hne : c ≠ 0 := fun hz => h (hz ▸ hc)
  simpa using hne

theorem nul_notMem_cString (s : Bytes) : (0 : UInt8) ∉ cString s := by
  intro h
  simpa using List.mem_takeWhile_imp h

/-- A file without the bytes that `isPE` skips. -/
def deleteBlanks (s : Bytes) : Bytes := s.filter (fun c => !isBlank c)

theorem deleteBlanks_dropWhile (s : Bytes) :
    deleteBlanks (s.dropWhile isBlank) = deleteBlanks s := by
  induction s with
  | nil => rfl
  | cons c s ih =>
    cases hc : isBlank c with
    | true => rw [List.dropWhile_cons_of_pos hc, ih]; simp [deleteBlanks, hc]
    | false => rw [List.dropWhile_cons_of_neg (by simp [hc])]

theorem deleteBlanks_eq_nil (s : Bytes) : deleteBlanks s = [] ↔ s.dropWhile isBlank = [] := by
  simp [deleteBlanks]

theorem deleteBlanks_cons {c : UInt8} (hc : isBlank c = false) (s : Bytes) :
    deleteBlanks (c :: s) = c :: deleteBlanks s := by
  simp [deleteBlanks, hc]

/-- When the comparison stops inside the mappings, it has compared the two C strings. -/
theorem isEqualStr_eq {s s2 : Bytes} {b : Bool} (h : isEqualStr s s2 = some b) :
    b = true ↔ cString s = cString s2 := by
  induction s generalizing s2 with
  | nil => simp [isEqualStr] at h
  | cons c1 s ih =>
    cases s2 with
    | nil => simp [isEqualStr] at h
    | cons c2 s2 =>
      unfold isEqualStr at h
      by_cases heq : c1 = c2
      · subst heq
        by_cases hzero : c1 = 0
        -- both strings end here
        · have hb : b = true := by simpa [hzero] using h.symm
          simp [hb, hzero]
        · have hrec : isEqualStr s s2 = some b := by simpa [hzero] using h
          rw [ih hrec, cString_cons hzero, cString_cons hzero]
          simp
      -- two bytes that differ are not both NUL
      · have hb : b = false := by
          have hor : ¬ (c1 = 0 ∧ c2 = 0) := fun hz => heq (hz.1.trans hz.2.symm)
          have hbits : ((c1 ||| c2) == 0) = false := by
            rw [beq_eq_false_iff_ne, ne_eq, UInt8.or_eq_zero_iff]
            exact hor
          rw [if_neg heq, hbits] at h
          exact (Option.some.inj h).symm
        have hne : cString (c1 :: s) ≠ cString (c2 :: s2) := by
          intro hc
          by_cases h1 : c1 = 0
          · have h2 : c2 ≠ 0 := fun h2 => heq (h1.trans h2.symm)
            rw [h1, cString_zero, cString_cons h2] at hc
            simp at hc
          · by_cases h2 : c2 = 0
            · rw [h2, cString_zero, cString_cons h1] at hc
              simp at hc
            · rw [cString_cons h1, cString_cons h2] at hc
              exact heq (List.cons.inj hc).1
        simp [hb, hne]

/-- A NUL in the first string stops the comparison, if the second is mapped as far. -/
theorem isEqualStr_isSome (s s2 : Bytes) (hnul : (0 : UInt8) ∈ s) (hlen : s.length ≤ s2.length) :
    ∃ b, isEqualStr s s2 = some b := by
  induction s generalizing s2 with
  | nil => simp at hnul
  | cons c1 s ih =>
    cases s2 with
    | nil => simp at hlen
    | cons c2 s2 =>
      unfold isEqualStr
      split_ifs with heq hzero
      · exact ⟨_, rfl⟩
      · refine ih s2 ?_ (by simpa using hlen)
        rcases List.mem_cons.mp hnul with h | h
        · exact absurd (Or.inl h.symm) hzero
        · exact h
      · exact ⟨_, rfl⟩

/-- What a cursor of `isPE` has in front of it. -/
def remaining (buf : Bytes) (fin cursor : ℕ) : Bytes := (buf.take fin).drop cursor

theorem remaining_length {buf : Bytes} {fin : ℕ} (hfin : fin ≤ buf.length) (cursor : ℕ) :
    (remaining buf fin cursor).length = fin-cursor := by
  simp [remaining, hfin]

theorem remaining_eq_nil {buf : Bytes} {fin : ℕ} (hfin : fin ≤ buf.length) (cursor : ℕ) :
    remaining buf fin cursor = [] ↔ fin ≤ cursor := by
  rw [← List.length_eq_zero_iff, remaining_length hfin]
  omega

theorem remaining_cons {buf : Bytes} {fin cursor : ℕ} (hfin : fin ≤ buf.length)
    (hc : cursor < fin) :
    ∃ c, buf[cursor]? = some c ∧ remaining buf fin cursor = c :: remaining buf fin (cursor+1) := by
  have hlt : cursor < (buf.take fin).length := by simp; omega
  have hget := List.drop_eq_getElem_cons hlt
  refine ⟨_, List.getElem?_eq_getElem (by omega), ?_⟩
  simpa [remaining] using hget

/-- The cursor stops at the first byte that is no white space. -/
theorem skipBlanks_spec {buf : Bytes} {fin : ℕ} (hfin : fin ≤ buf.length) (steps cursor : ℕ)
    (hc : cursor ≤ fin) (hsteps : fin-cursor ≤ steps) :
    ∃ c, skipBlanks buf fin steps cursor = some c ∧ cursor ≤ c ∧ c ≤ fin ∧
      remaining buf fin c = (remaining buf fin cursor).dropWhile isBlank := by
  -- `steps` bounds the white space that can be left, so the loop ends by its own condition
  induction steps generalizing cursor with
  | zero =>
    have hnil := (remaining_eq_nil hfin cursor).mpr (by omega)
    exact ⟨cursor, rfl, le_rfl, hc, by simp [hnil]⟩
  | succ steps ih =>
    by_cases hlt : cursor < fin
    · obtain ⟨b, hget, hrem⟩ := remaining_cons hfin hlt
      simp only [skipBlanks, hlt, if_true, hget, Option.bind_eq_bind, Option.bind_some]
      cases hb : isBlank b with
      | true =>
        obtain ⟨c, hskip, hle, hcf, hdrop⟩ := ih (cursor+1) (by omega) (by omega)
        refine ⟨c, by simpa using hskip, by omega, hcf, ?_⟩
        rw [hdrop, hrem, List.dropWhile_cons_of_pos hb]
      | false =>
        refine ⟨cursor, by simp, le_rfl, hc, ?_⟩
        rw [hrem, List.dropWhile_cons_of_neg (by simp [hb])]
    · have hnil := (remaining_eq_nil hfin cursor).mpr (by omega)
      exact ⟨cursor, by simp [skipBlanks, hlt], le_rfl, hc, by simp [hnil]⟩

/-- The two cursors of `isPE` stand inside their buffers, and only white space remains for both
of them exactly when the texts from `cuser` and `cright` on agree without white space. -/
structure Compared (user right : Bytes) (endUser endRight cuser cright cu cr : ℕ) : Prop where
  user_le : cu ≤ endUser
  right_le : cr ≤ endRight
  blank_iff : (deleteBlanks (remaining user endUser cu) = [] ∧
      deleteBlanks (remaining right endRight cr) = []) ↔
    deleteBlanks (remaining user endUser cuser) = deleteBlanks (remaining right endRight cright)

section PresentationError
variable {user right : Bytes} {endUser endRight : ℕ}

theorem Compared.of_end (hu : endUser ≤ user.length) (hr : endRight ≤ right.length)
    {cuser cright cu cr : ℕ} (hcu : cu ≤ endUser) (hcr : cr ≤ endRight)
    (hend : cu = endUser ∨ cr = endRight)
    (hsu : deleteBlanks (remaining user endUser cu) = deleteBlanks (remaining user endUser cuser))
    (hsr : deleteBlanks (remaining right endRight cr) =
      deleteBlanks (remaining right endRight cright)) :
    Compared user right endUser endRight cuser cright cu cr := by
  refine ⟨hcu, hcr, ?_⟩
  rw [← hsu, ← hsr]
  -- one of the two texts is used up
  rcases hend with hend | hend
  · have hnil : deleteBlanks (remaining user endUser cu) = [] := by
      rw [(remaining_eq_nil hu cu).mpr hend.ge]; rfl
    rw [hnil]
    exact ⟨fun h => h.2.symm, fun h => ⟨rfl, h.symm⟩⟩
  · have hnil : deleteBlanks (remaining right endRight cr) = [] := by
      rw [(remaining_eq_nil hr cr).mpr hend.ge]; rfl
    rw [hnil]
    exact ⟨fun h => h.1, fun h => ⟨h, rfl⟩⟩

theorem peLoop_spec (hu : endUser ≤ user.length) (hr : endRight ≤ right.length)
    (steps cuser cright : ℕ) (hcu : cuser ≤ endUser) (hcr : cright ≤ endRight)
    (hsteps : endUser-cuser ≤ steps) :
    ∃ cu cr, peLoop user right endUser endRight steps cuser cright = some (cu, cr) ∧
      Compared user right endUser endRight cuser cright cu cr := by
  induction steps generalizing cuser cright with
  | zero => exact ⟨cuser, cright, rfl, Compared.of_end hu hr hcu hcr (Or.inl (by omega)) rfl rfl⟩
  | succ steps ih =>
    by_cases hlt : cuser < endUser ∧ cright < endRight
    · obtain ⟨cu, hsu, hcule, hcuf, hdu⟩ :=
        skipBlanks_spec hu (endUser-cuser) cuser hcu le_rfl
      obtain ⟨cr, hsr, _, hcrf, hdr⟩ :=
        skipBlanks_spec hr (endRight-cright) cright hcr le_rfl
      have hvu : deleteBlanks (remaining user endUser cu) =
          deleteBlanks (remaining user endUser cuser) := by rw [hdu, deleteBlanks_dropWhile]
      have hvr : deleteBlanks (remaining right endRight cr) =
          deleteBlanks (remaining right endRight cright) := by rw [hdr, deleteBlanks_dropWhile]
      simp only [peLoop, hlt, and_self, if_true, hsu, hsr, Option.bind_eq_bind, Option.bind_some]
      by_cases hend : cu = endUser ∨ cr = endRight
      · exact ⟨cu, cr, by rw [if_pos hend], Compared.of_end hu hr hcuf hcrf hend hvu hvr⟩
      · obtain ⟨a, hgu, hru⟩ := remaining_cons hu (show cu < endUser by omega)
        obtain ⟨b, hgr, hrr⟩ := remaining_cons hr (show cr < endRight by omega)
        -- both cursors stand on bytes that are no white space
        have ha : isBlank a = false := by
          have h := List.head?_dropWhile_not isBlank (remaining user endUser cuser)
          simpa [← hdu, hru] using h
        have hb : isBlank b = false := by
          have h := List.head?_dropWhile_not isBlank (remaining right endRight cright)
          simpa [← hdr, hrr] using h
        simp only [hend, if_false, hgu, hgr, Option.bind_some]
        rw [hru, deleteBlanks_cons ha] at hvu
        rw [hrr, deleteBlanks_cons hb] at hvr
        by_cases hab : a = b
        -- a round that goes on has moved the user's cursor, so a round less is left
        · obtain ⟨cu', cr', hloop, hcmp⟩ := ih (cu+1) (cr+1) (by omega) (by omega) (by omega)
          refine ⟨cu', cr', by simpa [hab] using hloop, hcmp.user_le, hcmp.right_le, ?_⟩
          rw [hcmp.blank_iff, ← hvu, ← hvr, hab]
          simp
        · refine ⟨cu, cr, by simp [hab], hcuf, hcrf, ?_⟩
          rw [hru, hrr, deleteBlanks_cons ha, deleteBlanks_cons hb, ← hvu, ← hvr]
          simp [hab]
    · exact ⟨cuser, cright, by simp [peLoop, hlt],
        Compared.of_end hu hr hcu hcr (by omega) rfl rfl⟩

theorem skipBlanks_end {buf : Bytes} {fin cursor : ℕ} (hfin : fin ≤ buf.length)
    (hc : cursor ≤ fin) :
    ∃ c, skipBlanks buf fin (fin-cursor) cursor = some c ∧
      (c = fin ↔ deleteBlanks (remaining buf fin cursor) = []) := by
  obtain ⟨c, hskip, _, hcf, hdrop⟩ := skipBlanks_spec hfin (fin-cursor) cursor hc le_rfl
  refine ⟨c, hskip, ?_⟩
  rw [deleteBlanks_eq_nil, ← hdrop, remaining_eq_nil hfin]
  omega

/-- `isPE` always returns, and decides whether the files agree without their white space. -/
theorem isPE_eq (hu : endUser ≤ user.length) (hr : endRight ≤ right.length) :
    isPE user right endUser endRight =
      some (decide (deleteBlanks (user.take endUser) = deleteBlanks (right.take endRight))) := by
  obtain ⟨cu, cr, hloop, hcmp⟩ :=
    peLoop_spec hu hr endUser 0 0 (by omega) (by omega) (by omega)
  obtain ⟨cu', hsu, hendu⟩ := skipBlanks_end hu hcmp.user_le
  obtain ⟨cr', hsr, hendr⟩ := skipBlanks_end hr hcmp.right_le
  have hblank := hcmp.blank_iff
  rw [← hendu, ← hendr] at hblank
  simp only [remaining, List.drop_zero] at hblank
  simp only [isPE, hloop, hsu, hsr, Option.bind_eq_bind, Option.bind_some, Option.pure_def,
    ← hblank, Option.some.injEq]
  by_cases h1 : cu' = endUser <;> by_cases h2 : cr' = endRight <;> simp [h1, h2]

end PresentationError

end OnlineJudge
