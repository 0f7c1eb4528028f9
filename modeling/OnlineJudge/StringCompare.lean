import OnlineJudge.CheckerTotal

/-! The loop of `isEqualStr` as it runs on the two mappings, with the bytes it reads and no bound
on the rounds: it ends at the latest behind the end of the files. -/
namespace OnlineJudge

/-- The loop of `isEqualStr` goes on past two bytes: they agree, and neither is the NUL at which
it breaks off. -/
def GoesOn (a b : UInt8) : Prop := a = b ∧ ¬ (a = 0 ∨ b = 0)

/-- The loop of `isEqualStr` from the pointers `c1` and `c2` on, as offsets in the mappings (which
are not `NULL`): the places where two bytes are read, and where the pointers are left. -/
inductive ComparesTo (s s2 : Bytes) : ℕ → ℕ → List (ℕ × ℕ) → ℕ × ℕ → Prop
  | stop (c1 c2 : ℕ) (a b : UInt8) (ha : s[c1]? = some a) (hb : s2[c2]? = some b)
      (hstop : ¬ GoesOn a b) : ComparesTo s s2 c1 c2 [(c1, c2)] (c1, c2)
  | next (c1 c2 : ℕ) (a b : UInt8) (reads : List (ℕ × ℕ)) (out : ℕ × ℕ)
      (ha : s[c1]? = some a) (hb : s2[c2]? = some b) (hgo : GoesOn a b)
      (hrest : ComparesTo s s2 (c1+1) (c2+1) reads out) :
      ComparesTo s s2 c1 c2 ((c1, c2) :: reads) out

/-- `isEqualStr` returns `b` and has read these places; the last one is read again by the test
behind the loop. -/
def EqualStrReturns (s s2 : Bytes) (reads : List (ℕ × ℕ)) (b : Bool) : Prop :=
  ∃ looped c1 c2 a a2, ComparesTo s s2 0 0 looped (c1, c2) ∧ s[c1]? = some a ∧
    s2[c2]? = some a2 ∧ reads = looped ++ [(c1, c2)] ∧ b = ((a ||| a2) == 0)

section Loop
variable {s s2 : Bytes}

theorem ComparesTo.unique {c1 c2 : ℕ} {reads reads' : List (ℕ × ℕ)} {out out' : ℕ × ℕ}
    (h : ComparesTo s s2 c1 c2 reads out) (h' : ComparesTo s s2 c1 c2 reads' out') :
    reads' = reads ∧ out' = out := by
  induction h generalizing reads' out' with
  | stop c1 c2 a b ha hb hstop =>
    cases h' with
    | stop => exact ⟨rfl, rfl⟩
    | next _ _ a' b' reads _ ha' hb' hgo =>
      obtain rfl := Option.some.inj (ha.symm.trans ha')
      obtain rfl := Option.some.inj (hb.symm.trans hb')
      exact absurd hgo hstop
  | next c1 c2 a b reads out ha hb hgo _ ih =>
    cases h' with
    | stop _ _ a' b' ha' hb' hstop =>
      obtain rfl := Option.some.inj (ha.symm.trans ha')
      obtain rfl := Option.some.inj (hb.symm.trans hb')
      exact absurd hgo hstop
    | next _ _ a' b' reads' _ ha' hb' hgo' hrest' =>
      obtain ⟨rfl, rfl⟩ := ih hrest'
      exact ⟨rfl, rfl⟩

theorem EqualStrReturns.unique {reads reads' : List (ℕ × ℕ)} {b b' : Bool}
    (h : EqualStrReturns s s2 reads b) (h' : EqualStrReturns s s2 reads' b') :
    reads' = reads ∧ b' = b := by
  obtain ⟨looped, c1, c2, a, a2, hloop, ha, ha2, rfl, rfl⟩ := h
  obtain ⟨looped', c1', c2', a', a2', hloop', ha', ha2', rfl, rfl⟩ := h'
  obtain ⟨rfl, hout⟩ := hloop.unique hloop'
  obtain ⟨rfl, rfl⟩ := Prod.mk.inj hout
  obtain rfl := Option.some.inj (ha.symm.trans ha')
  obtain rfl := Option.some.inj (ha2.symm.trans ha2')
  exact ⟨rfl, rfl⟩

theorem drop_cons_of_getElem? {buf : Bytes} {i : ℕ} {c : UInt8} (h : buf[i]? = some c) :
    buf.drop i = c :: buf.drop (i+1) := by
  obtain ⟨hlt, rfl⟩ := List.getElem?_eq_some_iff.mp h
  exact List.drop_eq_getElem_cons hlt

/-- A run of the loop is what `isEqualStr` computes on the bytes from the two pointers on. -/
theorem ComparesTo.isEqualStr {c1 c2 : ℕ} {reads : List (ℕ × ℕ)} {out : ℕ × ℕ} {a a2 : UInt8}
    (h : ComparesTo s s2 c1 c2 reads out) (ha : s[out.1]? = some a) (ha2 : s2[out.2]? = some a2) :
    isEqualStr (s.drop c1) (s2.drop c2) = some ((a ||| a2) == 0) := by
  induction h with
  | stop c1 c2 x y hx hy hstop =>
    obtain rfl := Option.some.inj (hx.symm.trans ha)
    obtain rfl := Option.some.inj (hy.symm.trans ha2)
    rw [drop_cons_of_getElem? hx, drop_cons_of_getElem? hy, OnlineJudge.isEqualStr]
    by_cases heq : x = y
    · have hnul : x = 0 ∨ y = 0 := by
        by_contra hno
        exact hstop ⟨heq, hno⟩
      rw [if_pos heq, if_pos hnul]
    · rw [if_neg heq]
  | next c1 c2 x y reads out hx hy hgo _ ih =>
    rw [drop_cons_of_getElem? hx, drop_cons_of_getElem? hy, OnlineJudge.isEqualStr, if_pos hgo.1,
      if_neg hgo.2]
    exact ih ha ha2

/-- Where the recursion stops inside the mappings, so does the loop. -/
theorem comparesTo_of_isEqualStr {rest rest2 : Bytes} {b : Bool} (c1 c2 : ℕ)
    (hrest : s.drop c1 = rest) (hrest2 : s2.drop c2 = rest2)
    (h : isEqualStr rest rest2 = some b) :
    ∃ reads d1 d2 a a2, ComparesTo s s2 c1 c2 reads (d1, d2) ∧ s[d1]? = some a ∧
      s2[d2]? = some a2 ∧ b = ((a ||| a2) == 0) := by
  induction rest generalizing rest2 c1 c2 with
  | nil => simp [isEqualStr] at h
  | cons x rest ih =>
    cases rest2 with
    | nil => simp [isEqualStr] at h
    | cons y rest2 =>
      have hx : s[c1]? = some x := by rw [← List.head?_drop, hrest, List.head?_cons]
      have hy : s2[c2]? = some y := by rw [← List.head?_drop, hrest2, List.head?_cons]
      have htail : s.drop (c1+1) = rest := by rw [← List.tail_drop, hrest, List.tail_cons]
      have htail2 : s2.drop (c2+1) = rest2 := by rw [← List.tail_drop, hrest2, List.tail_cons]
      -- the loop goes on while the bytes agree and neither is the NUL
      by_cases hgo : GoesOn x y
      · rw [isEqualStr, if_pos hgo.1, if_neg hgo.2] at h
        obtain ⟨reads, d1, d2, a, a2, hloop, ha, ha2, hb⟩ := ih (c1+1) (c2+1) htail htail2 h
        exact ⟨_, d1, d2, a, a2, .next c1 c2 x y reads (d1, d2) hx hy hgo hloop, ha, ha2, hb⟩
      · refine ⟨_, c1, c2, x, y, .stop c1 c2 x y hx hy hgo, hx, hy, ?_⟩
        rw [isEqualStr] at h
        split_ifs at h with heq hnul
        · exact (Option.some.inj h).symm
        · exact absurd ⟨heq, hnul⟩ hgo
        · exact (Option.some.inj h).symm

/-- The recursion and the loop return the same, and one is undefined where the other is. -/
theorem equalStrReturns_iff (b : Bool) :
    (∃ reads, EqualStrReturns s s2 reads b) ↔ isEqualStr s s2 = some b := by
  constructor
  · rintro ⟨reads, looped, c1, c2, a, a2, hloop, ha, ha2, _, rfl⟩
    exact hloop.isEqualStr ha ha2
  · intro h
    obtain ⟨looped, c1, c2, a, a2, hloop, ha, ha2, hb⟩ := comparesTo_of_isEqualStr 0 0 rfl rfl h
    exact ⟨_, looped, c1, c2, a, a2, hloop, ha, ha2, rfl, hb⟩

end Loop

/-- A file and the zeros behind it. -/
def zeroExtended (data : Bytes) (i : ℕ) : UInt8 := data.getD i 0

/-- Two buffers agree up to and including the first NUL. -/
def AgreeToNul (u r : ℕ → UInt8) : Prop :=
  ∃ k, u k = 0 ∧ (∀ j < k, u j ≠ 0) ∧ ∀ j ≤ k, u j = r j

section Stop
variable {s s2 : Bytes} {u r : ℕ → UInt8} {k : ℕ}

/-- The loop comes to the first place where it cannot go on, and reads nothing behind it. -/
theorem comparesTo_from (hs : ∀ i ≤ k, s[i]? = some (u i)) (hs2 : ∀ i ≤ k, s2[i]? = some (r i))
    (hgo : ∀ i < k, GoesOn (u i) (r i)) (hstop : ¬ GoesOn (u k) (r k)) (i rounds : ℕ)
    (hi : i+rounds = k) :
    ∃ reads, ComparesTo s s2 i i reads (k, k) ∧ ∀ p ∈ reads, p.1 ≤ k ∧ p.2 ≤ k := by
  induction rounds generalizing i with
  | zero =>
    obtain rfl : i = k := hi
    refine ⟨_, .stop i i _ _ (hs i le_rfl) (hs2 i le_rfl) hstop, ?_⟩
    simp
  | succ rounds ih =>
    obtain ⟨reads, hrest, hreads⟩ := ih (i+1) (by omega)
    have hle : i ≤ k := by omega
    refine ⟨_, .next i i _ _ reads _ (hs i hle) (hs2 i hle) (hgo i (by omega)) hrest, ?_⟩
    exact List.forall_mem_cons.mpr ⟨⟨hle, hle⟩, hreads⟩

/-- At that place both bytes are NUL exactly when the buffers agree to their first NUL. -/
theorem agreeToNul_iff (hgo : ∀ i < k, GoesOn (u i) (r i)) (hstop : ¬ GoesOn (u k) (r k)) :
    AgreeToNul u r ↔ u k = 0 ∧ r k = 0 := by
  constructor
  · rintro ⟨m, hnul, hfirst, hagree⟩
    -- the loop goes on to the first NUL and no further
    have hm : m = k := by
      rcases lt_trichotomy m k with hlt | heq | hgt
      · exact absurd (Or.inl hnul) (hgo m hlt).2
      · exact heq
      · have hne := hfirst k hgt
        have hsame := hagree k hgt.le
        refine absurd ⟨hsame, ?_⟩ hstop
        rw [← hsame, or_self]
        exact hne
    subst hm
    exact ⟨hnul, (hagree m le_rfl).symm.trans hnul⟩
  · rintro ⟨hu, hr⟩
    refine ⟨k, hu, fun j hj hzero => (hgo j hj).2 (Or.inl hzero), ?_⟩
    intro j hj
    rcases Nat.lt_or_eq_of_le hj with hlt | rfl
    · exact (hgo j hlt).1
    · rw [hu, hr]

/-- Mappings that are zero at `n` stop the loop there at the latest. -/
theorem equalStrReturns_within {n : ℕ} (hs : ∀ i ≤ n, s[i]? = some (u i))
    (hs2 : ∀ i ≤ n, s2[i]? = some (r i)) (hu : u n = 0) :
    ∃ reads b, EqualStrReturns s s2 reads b ∧ (∀ p ∈ reads, p.1 ≤ n ∧ p.2 ≤ n) ∧
      (b = true ↔ AgreeToNul u r) := by
  classical
  have hends : ∃ i, ¬ GoesOn (u i) (r i) := ⟨n, fun h => h.2 (Or.inl hu)⟩
  obtain ⟨k, hstop, hfirst⟩ : ∃ k, ¬ GoesOn (u k) (r k) ∧ ∀ i < k, ¬ ¬ GoesOn (u i) (r i) :=
    ⟨Nat.find hends, Nat.find_spec hends, fun i hi => Nat.find_min hends hi⟩
  have hgo (i : ℕ) (hi : i < k) : GoesOn (u i) (r i) := not_not.mp (hfirst i hi)
  have hk : k ≤ n := by
    by_contra hlt
    exact (hgo n (by omega)).2 (Or.inl hu)
  obtain ⟨looped, hloop, hreads⟩ := comparesTo_from (fun i hi => hs i (hi.trans hk))
    (fun i hi => hs2 i (hi.trans hk)) hgo hstop 0 k (Nat.zero_add k)
  refine ⟨looped ++ [(k, k)], _, ⟨looped, k, k, u k, r k, hloop, hs k hk, hs2 k hk, rfl, rfl⟩,
    ?_, ?_⟩
  · refine List.forall_mem_append.mpr ⟨?_, List.forall_mem_singleton.mpr ⟨hk, hk⟩⟩
    intro p hp
    exact ⟨(hreads p hp).1.trans hk, (hreads p hp).2.trans hk⟩
  · rw [agreeToNul_iff hgo hstop, beq_iff_eq, UInt8.or_eq_zero_iff]

end Stop

theorem getElem?_takeD (data : Bytes) {len i : ℕ} (hi : i < len) :
    (data.takeD len 0)[i]? = some (zeroExtended data i) := by
  induction len generalizing data i with
  | zero => omega
  | succ len ih =>
    cases i with
    | zero => cases data <;> simp [List.takeD, zeroExtended]
    | succ i =>
      have htail := ih data.tail (by omega : i < len)
      cases data with
      | nil => simpa [List.takeD, zeroExtended] using htail
      | cons c data => simpa [List.takeD, zeroExtended] using htail

/-- `Checker::run` comes to its call of `isEqualStr`, with these mappings of the two files. -/
structure ReachesEqualStr (pagesize : ℕ) (userout rightout : FileView) (c : Checker)
    (user right : Bytes) : Prop where
  measured : checkOutLength {} userout rightout = (.kOk, c)
  userMap : memoryMap pagesize userout c.useroutLen = some user
  rightMap : memoryMap pagesize rightout c.rightoutLen = some right
  equalLength : c.useroutLen = c.rightoutLen

section Call
variable {pagesize : ℕ} {userout rightout : FileView}

/-- The answer of that call decides whether the output is accepted. -/
theorem ReachesEqualStr.accepts_iff {c : Checker} {user right : Bytes}
    (h : ReachesEqualStr pagesize userout rightout c user right) :
    (∃ c', Checker.run pagesize userout rightout = .ok (.kOk, c')) ↔
      isEqualStr user right = some true := by
  unfold Checker.run
  rw [h.measured]
  dsimp only
  rw [h.userMap, h.rightMap]
  dsimp only
  rw [if_neg (not_not.mpr h.equalLength)]
  cases hequal : isEqualStr user right with
  | none => simp [mapped]
  | some equal =>
    cases equal with
    | true => simp [mapped]
    | false =>
      cases hpe : isPE user right c.useroutLen.toNat c.rightoutLen.toNat with
      | none => simp [mapped]
      | some pe => cases pe <;> simp [mapped]

/-- Files of one length, which is not over the limit, are compared. -/
theorem reachesEqualStr_of_length (hpage : kMaxLength < pagesize)
    (h : Comparable userout rightout)
    (hlen : rightout.data.length = userout.data.length) :
    ∃ c, ReachesEqualStr pagesize userout rightout c (userout.data.takeD pagesize 0)
      (rightout.data.takeD pagesize 0) := by
  have hlt : userout.data.length < pagesize := lt_of_le_of_lt h.userout_le hpage
  have hpos : 0 < (userout.data.length : ℤ) := Int.natCast_pos.mpr h.userout_pos
  have hcast := toInt32_of_le_max h.userout_le
  have hend := pageEnd_eq pagesize h.userout_pos hlt
  obtain ⟨c, hout, hm⟩ := checkOutLength_ok h.userout_fstat h.rightout_fstat h.userout_le
  have hright : c.rightoutLen = userout.data.length := by rw [hm.rightoutLen, hlen, hcast]
  refine ⟨c, hout, ?_, ?_, hm.useroutLen.trans hright.symm⟩
  · rw [hm.useroutLen, memoryMap_some pagesize hpos h.userout_mmap, Int.toNat_natCast, hend]
  · rw [hright, memoryMap_some pagesize hpos h.rightout_mmap, Int.toNat_natCast, hend]

end Call

/-- `isEqualStr` stays inside the mappings: on files of one length within the limit it ends, reads
nothing behind the first zero that follows them, and compares them up to their first NUL. -/
theorem isEqualStr_inside (pagesize n : ℕ) (hpage : 4096 ≤ pagesize)
    (userout rightout : FileView) (hn : 1 ≤ n ∧ n ≤ kMaxLength)
    (huser : userout.data.length = n) (hright : rightout.data.length = n)
    (hfstat : userout.fstat = true ∧ rightout.fstat = true)
    (hmmap : userout.mmap = true ∧ rightout.mmap = true) :
    ∃ c user right reads b, ReachesEqualStr pagesize userout rightout c user right ∧
      isEqualStr user right = some b ∧ EqualStrReturns user right reads b ∧
      (∀ reads' b', EqualStrReturns user right reads' b' → reads' = reads ∧ b' = b) ∧
      (∀ p ∈ reads, p.1 ≤ n ∧ p.2 ≤ n) ∧
      (b = true ↔ AgreeToNul (zeroExtended userout.data) (zeroExtended rightout.data)) := by
  have hmax : kMaxLength < pagesize := lt_of_lt_of_le (by decide) hpage
  have hcmp : Comparable userout rightout := by
    refine ⟨hfstat.1, hfstat.2, hmmap.1, hmmap.2, by omega, by omega, ?_⟩
    rw [hright, toInt32_of_le_max hn.2]
    omega
  obtain ⟨c, hreach⟩ := reachesEqualStr_of_length hmax hcmp (hright.trans huser.symm)
  -- `mmap` fills the page with zeros, so there is a NUL behind the last byte of the file
  have hzero : zeroExtended userout.data n = 0 := by
    rw [zeroExtended, List.getD_eq_default _ _ huser.le]
  obtain ⟨reads, b, hreturns, hreads, hb⟩ := equalStrReturns_within
    (fun i hi => getElem?_takeD userout.data (show i < pagesize by omega))
    (fun i hi => getElem?_takeD rightout.data (show i < pagesize by omega)) hzero
  have hequal := (equalStrReturns_iff b).mp ⟨reads, hreturns⟩
  exact ⟨c, _, _, reads, b, hreach, hequal, hreturns, fun _ _ h => hreturns.unique h, hreads, hb⟩

theorem isEqualStr_inside_line :
    ∃ c user right reads b,
      ReachesEqualStr 4096 ⟨str "42\n", true, true⟩ ⟨str "42\n", true, true⟩ c user right ∧
      isEqualStr user right = some b ∧ EqualStrReturns user right reads b ∧
      (∀ reads' b', EqualStrReturns user right reads' b' → reads' = reads ∧ b' = b) ∧
      (∀ p ∈ reads, p.1 ≤ 3 ∧ p.2 ≤ 3) ∧
      (b = true ↔ AgreeToNul (zeroExtended (str "42\n")) (zeroExtended (str "42\n"))) :=
  isEqualStr_inside 4096 3 le_rfl ⟨str "42\n", true, true⟩ ⟨str "42\n", true, true⟩ (by decide) rfl
    rfl ⟨rfl, rfl⟩ ⟨rfl, rfl⟩

end OnlineJudge
