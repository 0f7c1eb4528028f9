import OnlineJudge.CheckerText

/-! The loops of `isPE` as they run, with every read inside its buffer and no bound on the
rounds: they end, and decide whether the buffers agree without their white space. -/
namespace OnlineJudge

/-- A loop over white space takes its cursor from one position to another. -/
inductive SkipsTo (buf : Bytes) (fin : ℕ) : ℕ → ℕ → Prop
  | exhausted (cursor : ℕ) (hend : ¬ cursor < fin) : SkipsTo buf fin cursor cursor
  | text (cursor : ℕ) (c : UInt8) (hlt : cursor < fin) (hread : buf[cursor]? = some c)
      (hc : isBlank c = false) : SkipsTo buf fin cursor cursor
  | blank (cursor stop : ℕ) (c : UInt8) (hlt : cursor < fin) (hread : buf[cursor]? = some c)
      (hc : isBlank c = true) (hrest : SkipsTo buf fin (cursor+1) stop) :
      SkipsTo buf fin cursor stop

/-- The outer loop takes the two cursors to where it is left: by its guard, by the first `break`
or by the second. -/
inductive LoopsTo (user right : Bytes) (endUser endRight : ℕ) : ℕ → ℕ → ℕ × ℕ → Prop
  | guard (cuser cright : ℕ) (hend : ¬ (cuser < endUser ∧ cright < endRight)) :
      LoopsTo user right endUser endRight cuser cright (cuser, cright)
  | exhausted (cuser cright cu cr : ℕ) (hlt : cuser < endUser ∧ cright < endRight)
      (hu : SkipsTo user endUser cuser cu) (hr : SkipsTo right endRight cright cr)
      (hend : cu = endUser ∨ cr = endRight) :
      LoopsTo user right endUser endRight cuser cright (cu, cr)
  | mismatch (cuser cright cu cr : ℕ) (a b : UInt8) (hlt : cuser < endUser ∧ cright < endRight)
      (hu : SkipsTo user endUser cuser cu) (hr : SkipsTo right endRight cright cr)
      (hend : ¬ (cu = endUser ∨ cr = endRight)) (ha : user[cu]? = some a)
      (hb : right[cr]? = some b) (hne : a ≠ b) :
      LoopsTo user right endUser endRight cuser cright (cu, cr)
  | next (cuser cright cu cr : ℕ) (c : UInt8) (out : ℕ × ℕ)
      (hlt : cuser < endUser ∧ cright < endRight) (hu : SkipsTo user endUser cuser cu)
      (hr : SkipsTo right endRight cright cr) (hend : ¬ (cu = endUser ∨ cr = endRight))
      (ha : user[cu]? = some c) (hb : right[cr]? = some c)
      (hrest : LoopsTo user right endUser endRight (cu+1) (cr+1) out) :
      LoopsTo user right endUser endRight cuser cright out

/-- `isPE` returns `b` on buffers of exactly these lengths. -/
def PEReturns (user right : Bytes) (b : Bool) : Prop :=
  ∃ cu cr cu' cr', LoopsTo user right user.length right.length 0 0 (cu, cr) ∧
    SkipsTo user user.length cu cu' ∧ SkipsTo right right.length cr cr' ∧
    b = (cu' == user.length && cr' == right.length)

section Loops
variable {buf user right : Bytes} {fin endUser endRight : ℕ}

theorem skipBlanks_skipsTo {steps cursor stop : ℕ} (hsteps : fin-cursor ≤ steps)
    (h : skipBlanks buf fin steps cursor = some stop) : SkipsTo buf fin cursor stop := by
  -- `steps` bounds what is left of the buffer
  induction steps generalizing cursor with
  | zero =>
    obtain rfl : cursor = stop := Option.some.inj h
    exact .exhausted cursor (by omega)
  | succ steps ih =>
    by_cases hlt : cursor < fin
    · cases hread : buf[cursor]? with
      | none => simp [skipBlanks, hlt, hread] at h
      | some c =>
        cases hc : isBlank c with
        | true =>
          have hrest : skipBlanks buf fin steps (cursor+1) = some stop := by
            simpa [skipBlanks, hlt, hread, hc] using h
          exact .blank cursor stop c hlt hread hc (ih (by omega) hrest)
        | false =>
          obtain rfl : cursor = stop := by simpa [skipBlanks, hlt, hread, hc] using h
          exact .text cursor c hlt hread hc
    · obtain rfl : cursor = stop := by simpa [skipBlanks, hlt] using h
      exact .exhausted cursor hlt

theorem SkipsTo.skipBlanks {cursor stop : ℕ} (h : SkipsTo buf fin cursor stop) (steps : ℕ)
    (hsteps : fin-cursor ≤ steps) : skipBlanks buf fin steps cursor = some stop := by
  induction h generalizing steps with
  | exhausted cursor hend => cases steps <;> simp [OnlineJudge.skipBlanks, hend]
  | text cursor c hlt hread hc =>
    cases steps <;> simp [OnlineJudge.skipBlanks, hlt, hread, hc]
  | blank cursor stop c hlt hread hc _ ih =>
    cases steps with
    | zero => omega
    | succ steps => simpa [OnlineJudge.skipBlanks, hlt, hread, hc] using ih steps (by omega)

theorem SkipsTo.le {cursor stop : ℕ} (h : SkipsTo buf fin cursor stop) : cursor ≤ stop := by
  induction h with
  | exhausted cursor hend => exact le_rfl
  | text cursor c hlt hread hc => exact le_rfl
  | blank cursor stop c hlt hread hc _ ih => omega

theorem skipsTo_iff (cursor stop : ℕ) :
    SkipsTo buf fin cursor stop ↔ skipBlanks buf fin (fin-cursor) cursor = some stop := by
  constructor
  · intro h
    exact h.skipBlanks _ le_rfl
  · intro h
    exact skipBlanks_skipsTo le_rfl h

/-- A round that goes on has moved the user's cursor, so `endUser` rounds are enough. -/
theorem peLoop_loopsTo {steps cuser cright : ℕ} {out : ℕ × ℕ} (hsteps : endUser-cuser ≤ steps)
    (h : peLoop user right endUser endRight steps cuser cright = some out) :
    LoopsTo user right endUser endRight cuser cright out := by
  induction steps generalizing cuser cright with
  | zero =>
    obtain rfl : (cuser, cright) = out := Option.some.inj h
    exact .guard cuser cright (by omega)
  | succ steps ih =>
    by_cases hlt : cuser < endUser ∧ cright < endRight
    · simp only [peLoop, hlt, and_self, if_true, Option.bind_eq_bind, Option.bind_eq_some_iff] at h
      obtain ⟨cu, hu, cr, hr, h⟩ := h
      rw [← skipsTo_iff] at hu hr
      -- the first `break` is for a buffer that is used up, the second for a difference
      by_cases hend : cu = endUser ∨ cr = endRight
      · obtain rfl : (cu, cr) = out := by simpa [hend] using h
        exact .exhausted cuser cright cu cr hlt hu hr hend
      · simp only [hend, if_false, Option.bind_eq_some_iff] at h
        obtain ⟨a, ha, b, hb, h⟩ := h
        by_cases hab : a = b
        · subst hab
          have hcu := hu.le
          have hrest : LoopsTo user right endUser endRight (cu+1) (cr+1) out := by
            apply ih (by omega)
            simpa using h
          exact .next cuser cright cu cr a out hlt hu hr hend ha hb hrest
        · obtain rfl : (cu, cr) = out := by simpa [hab] using h
          exact .mismatch cuser cright cu cr a b hlt hu hr hend ha hb hab
    · obtain rfl : (cuser, cright) = out := by simpa [peLoop, hlt] using h
      exact .guard cuser cright hlt

theorem LoopsTo.peLoop {cuser cright : ℕ} {out : ℕ × ℕ}
    (h : LoopsTo user right endUser endRight cuser cright out) (steps : ℕ)
    (hsteps : endUser-cuser ≤ steps) :
    peLoop user right endUser endRight steps cuser cright = some out := by
  -- each round moves the user cursor on, so the bytes left to it are rounds enough
  induction h generalizing steps with
  | guard cuser cright hend => cases steps <;> simp [OnlineJudge.peLoop, hend]
  | exhausted cuser cright cu cr hlt hu hr hend =>
    cases steps with
    | zero => omega
    | succ steps =>
      simp [OnlineJudge.peLoop, hlt, (skipsTo_iff _ _).mp hu, (skipsTo_iff _ _).mp hr, hend]
  | mismatch cuser cright cu cr a b hlt hu hr hend ha hb hne =>
    cases steps with
    | zero => omega
    | succ steps =>
      simp [OnlineJudge.peLoop, hlt, (skipsTo_iff _ _).mp hu, (skipsTo_iff _ _).mp hr, hend, ha,
        hb, hne]
  | next cuser cright cu cr c out hlt hu hr hend ha hb _ ih =>
    cases steps with
    | zero => omega
    | succ steps =>
      have hcu := hu.le
      have hrest := ih steps (by omega)
      simp [OnlineJudge.peLoop, hlt, (skipsTo_iff _ _).mp hu, (skipsTo_iff _ _).mp hr, hend, ha,
        hb, hrest]

end Loops

theorem peReturns_iff (user right : Bytes) (b : Bool) :
    PEReturns user right b ↔ isPE user right user.length right.length = some b := by
  simp only [isPE, Option.bind_eq_bind, Option.bind_eq_some_iff, Option.pure_def,
    Option.some.injEq, Prod.exists, ← skipsTo_iff]
  constructor
  · rintro ⟨cu, cr, cu', cr', hloop, hu, hr, rfl⟩
    exact ⟨cu, cr, hloop.peLoop _ le_rfl, cu', hu, cr', hr, rfl⟩
  · rintro ⟨cu, cr, hloop, cu', hu, cr', hr, rfl⟩
    exact ⟨cu, cr, cu', cr', peLoop_loopsTo le_rfl hloop, hu, hr, rfl⟩

/-- The loops return, once, with the answer whether the buffers agree without their blanks. -/
theorem peReturns_deleteBlanks (user right : Bytes) (b : Bool) :
    PEReturns user right b ↔ b = decide (deleteBlanks user = deleteBlanks right) := by
  rw [peReturns_iff, isPE_eq le_rfl le_rfl, List.take_length, List.take_length,
    Option.some.injEq, eq_comm]

/-- One space, newline, carriage return or tab more or less, anywhere in a buffer. -/
inductive BlankEdit : Bytes → Bytes → Prop
  | insert (front back : Bytes) (c : UInt8) (hc : isBlank c = true) :
      BlankEdit (front ++ back) (front ++ c :: back)
  | delete (front back : Bytes) (c : UInt8) (hc : isBlank c = true) :
      BlankEdit (front ++ c :: back) (front ++ back)

theorem BlankEdit.deleteBlanks_eq {s s' : Bytes} (h : BlankEdit s s') :
    deleteBlanks s' = deleteBlanks s := by
  cases h with
  | insert front back c hc => simp [deleteBlanks, hc]
  | delete front back c hc => simp [deleteBlanks, hc]

/-- `isPE` terminates inside its buffers with the answer whether they agree without white space;
so neither the order of the buffers nor white space in them matters. -/
theorem isPE_insensitive (user right : Bytes) :
    ∃ b, PEReturns user right b ∧ (∀ b', PEReturns user right b' → b' = b) ∧
      (b = true ↔ deleteBlanks user = deleteBlanks right) ∧ PEReturns right user b ∧
      (∀ user', Relation.ReflTransGen BlankEdit user user' → PEReturns user' right b) ∧
      ∀ right', Relation.ReflTransGen BlankEdit right right' → PEReturns user right' b := by
  have hedit (s s' : Bytes) (h : Relation.ReflTransGen BlankEdit s s') :
      deleteBlanks s' = deleteBlanks s := by
    induction h with
    | refl => rfl
    | tail _ hstep ih => exact hstep.deleteBlanks_eq.trans ih
  -- everything else follows from the text that is left of each buffer
  refine ⟨decide (deleteBlanks user = deleteBlanks right), ?_, ?_, ?_, ?_, ?_, ?_⟩
  · exact (peReturns_deleteBlanks user right _).mpr rfl
  · intro b' hb'
    exact (peReturns_deleteBlanks user right b').mp hb'
  · exact decide_eq_true_iff
  · apply (peReturns_deleteBlanks right user _).mpr
    exact decide_eq_decide.mpr eq_comm
  · intro user' huser
    apply (peReturns_deleteBlanks user' right _).mpr
    rw [hedit user user' huser]
  · intro right' hright
    apply (peReturns_deleteBlanks user right' _).mpr
    rw [hedit right right' hright]

end OnlineJudge
