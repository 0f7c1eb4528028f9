import OnlineJudge.CheckerText

/-! Paths as bytes, and the buffer in which `removeDir` builds the path of each entry: 100 bytes,
whatever the directory and the entry are called. -/
namespace OnlineJudge

/-- The bytes of a configured string. -/
def pathBytes (s : String) : Bytes := s.toByteArray.data.toList

/-- `%d` on an unsigned number. -/
def decimal (n : ℕ) : Bytes := pathBytes (toString n)

/-- `c_str()`, as a function that takes a C string reads it. -/
def cStr (s : String) : String := .ofList (s.toList.takeWhile (· != '\x00'))

section Text

theorem pathBytes_length (s : String) : (pathBytes s).length = s.utf8ByteSize := by
  rw [pathBytes, Array.length_toList]
  exact String.size_toByteArray

theorem pathBytes_append (s t : String) : pathBytes (s ++ t) = pathBytes s ++ pathBytes t := by
  simp [pathBytes]

theorem pathBytes_injective : Function.Injective pathBytes := by
  intro s t h
  apply String.toByteArray_inj.mp
  apply ByteArray.ext
  exact Array.toList_inj.mp h

theorem pathBytes_ofList (l : List Char) :
    pathBytes (String.ofList l) = l.flatMap String.utf8EncodeChar := by
  simp [pathBytes, List.utf8Encode]

/-- A decimal number consists of the bytes from `0` to `9`. -/
theorem decimal_digit {n : ℕ} {c : UInt8} (hc : c ∈ decimal n) : 48 ≤ c ∧ c ≤ 57 := by
  rw [decimal, Nat.toString_eq_ofList_toDigits, pathBytes_ofList] at hc
  obtain ⟨d, hd, hc⟩ := List.mem_flatMap.mp hc
  have hdigit := Char.isDigit_iff_toNat.mp (Nat.isDigit_of_mem_toDigits (by norm_num) le_rfl hd)
  -- a digit is encoded as one byte
  have hascii : d.val.toNat ≤ 0x7f := hdigit.2.trans (by decide)
  rw [String.utf8EncodeChar, if_pos hascii, List.mem_singleton] at hc
  have hval : c.toNat = d.val.toNat := by
    rw [hc, UInt8.toNat_ofNat_of_lt' (by change d.val.toNat < 256; omega)]
  rw [UInt8.le_iff_toNat_le, UInt8.le_iff_toNat_le, hval]
  exact hdigit

theorem decimal_injective : Function.Injective decimal := by
  intro n m h
  exact Nat.repr_injective (pathBytes_injective h)

theorem notMem_decimal {c : UInt8} (hc : ¬ (48 ≤ c ∧ c ≤ 57)) (n : ℕ) : c ∉ decimal n := by
  intro h
  exact hc (decimal_digit h)

theorem nul_notMem_decimal (n : ℕ) : 0 ∉ decimal n := notMem_decimal (by decide) n

/-- A number of `k` digits is formatted in `k` bytes. -/
theorem decimal_length_le {n k : ℕ} (hk : 0 < k) (hn : n < 10^k) : (decimal n).length ≤ k := by
  have hdigit (l : List Char) (hl : ∀ c ∈ l, c.isDigit = true) :
      (l.flatMap String.utf8EncodeChar).length = l.length := by
    induction l with
    | nil => rfl
    | cons c l ih =>
      have hc := Char.isDigit_iff_toNat.mp (hl c (by simp))
      have hascii : c.val.toNat ≤ 0x7f := hc.2.trans (by decide)
      rw [List.flatMap_cons, List.length_append, ih (fun d hd => hl d (by simp [hd])),
        String.utf8EncodeChar, if_pos hascii, List.length_singleton, List.length_cons, add_comm]
  rw [decimal, Nat.toString_eq_ofList_toDigits, pathBytes_ofList,
    hdigit _ (fun c hc => Nat.isDigit_of_mem_toDigits (by norm_num) le_rfl hc)]
  exact (Nat.length_toDigits_le_iff (by norm_num) hk).mpr hn

/-- Only a NUL is encoded with a zero byte. -/
theorem nul_notMem_utf8EncodeChar {c : Char} (hc : c ≠ '\x00') : 0 ∉ String.utf8EncodeChar c := by
  have hval : c.val.toNat ≠ 0 := by
    intro hzero
    apply hc
    apply Char.ext
    exact UInt32.toNat_inj.mp hzero
  have hbyte (n : ℕ) (hpos : 0 < n) (hlt : n < 256) : (0 : UInt8) ≠ UInt8.ofNat n := by
    intro hzero
    have hnat := congrArg UInt8.toNat hzero
    rw [UInt8.toNat_ofNat_of_lt' hlt] at hnat
    exact absurd hnat.symm (Nat.pos_iff_ne_zero.mp hpos)
  intro hzero
  simp only [String.utf8EncodeChar] at hzero
  split_ifs at hzero with hone htwo hthree
  · exact hbyte _ (by omega) (by omega) (List.mem_singleton.mp hzero)
  -- every byte of a longer code has its highest bit set
  all_goals simp only [List.mem_cons, List.not_mem_nil, or_false] at hzero
  · rcases hzero with h | h <;> exact hbyte _ (by omega) (by omega) h
  · rcases hzero with h | h | h <;> exact hbyte _ (by omega) (by omega) h
  · rcases hzero with h | h | h | h <;> exact hbyte _ (by omega) (by omega) h

theorem pathBytes_cStr (s : String) : pathBytes (cStr s) = cString (pathBytes s) := by
  have hlist (l : List Char) : (l.takeWhile (· != '\x00')).flatMap String.utf8EncodeChar =
      cString (l.flatMap String.utf8EncodeChar) := by
    induction l with
    | nil => rfl
    | cons c l ih =>
      by_cases hc : c = '\x00'
      · subst hc
        rfl
      · have hwhole : ∀ b ∈ String.utf8EncodeChar c, (b != 0) = true := by
          intro b hb
          simp only [bne_iff_ne]
          rintro rfl
          exact nul_notMem_utf8EncodeChar hc hb
        rw [List.takeWhile_cons_of_pos (by simpa using hc), List.flatMap_cons, List.flatMap_cons,
          cString, List.takeWhile_append_of_pos hwhole, ih, cString]
  rw [cStr, pathBytes_ofList, hlist, ← pathBytes_ofList, String.ofList_toList]

end Text

/-- An entry as `readdir` reports it; its name has any bytes. -/
structure Dirent where
  dType : ℕ
  dName : Bytes
  deriving DecidableEq

/-- `sprintf` of a string into a buffer, with its NUL; `none` is a write behind the end. -/
def sprintf (buf s : Bytes) : Option Bytes :=
  if s.length+1 ≤ buf.length then some (s ++ 0 :: buf.drop (s.length+1)) else none

/-- `%s/%s` -/
def entryPath (dirPath dName : Bytes) : Bytes := dirPath ++ str "/" ++ dName

/-- `removeDir` builds the path of the entry. -/
def Dirent.formatted (e : Dirent) : Bool :=
  e.dType == 8 || (e.dType == 4 && e.dName != str "." && e.dName != str "..")

/-- The loop of `removeDir` over the entries, with the contents of `subname` and the paths that
are handed to `remove`. -/
def removeLoop (dirPath : Bytes) : List Dirent → Bytes → Option (List Bytes)
  | [], _ => some []
  | e :: rest, subname =>
    if e.formatted then do
      let subname ← sprintf subname (entryPath dirPath e.dName)
      let paths ← removeLoop dirPath rest subname
      return cString subname :: paths
    else removeLoop dirPath rest subname

/-- `removeDir` on an open directory; `vector<char> subname(100)` starts with zeros. -/
def removePaths (dirPath : Bytes) (entries : List Dirent) : Option (List Bytes) :=
  removeLoop dirPath entries (List.replicate 100 0)

section Length

theorem entryPath_length (dirPath dName : Bytes) :
    (entryPath dirPath dName).length = dirPath.length+1+dName.length := by
  have hslash : (str "/").length = 1 := rfl
  simp only [entryPath, List.length_append, hslash]

theorem sprintf_isSome_iff (buf s : Bytes) :
    (∃ buf', sprintf buf s = some buf') ↔ s.length+1 ≤ buf.length := by
  unfold sprintf
  split_ifs with hfits <;> simp [hfits]

theorem sprintf_length {buf s buf' : Bytes} (h : sprintf buf s = some buf') :
    buf'.length = buf.length := by
  unfold sprintf at h
  split_ifs at h with hfits
  obtain rfl := Option.some.inj h
  simp only [List.length_append, List.length_cons, List.length_drop]
  omega

/-- What `remove` reads from the buffer is the string that was put there. -/
theorem sprintf_cString {buf s buf' : Bytes} (h : sprintf buf s = some buf') (hnul : 0 ∉ s) :
    cString buf' = s := by
  unfold sprintf at h
  split_ifs at h with hfits
  obtain rfl := Option.some.inj h
  have hwhole : ∀ c ∈ s, (c != 0) = true := by
    intro c hc
    simp only [bne_iff_ne]
    rintro rfl
    exact hnul hc
  rw [cString, List.takeWhile_append_of_pos hwhole, List.takeWhile_cons_of_neg (by simp),
    List.append_nil]

end Length

section Loop
variable (dirPath : Bytes)

/-- No path that is formatted is longer than the buffer, which keeps its length. -/
theorem removeLoop_isSome_iff (entries : List Dirent) (subname : Bytes) :
    (∃ paths, removeLoop dirPath entries subname = some paths) ↔
      ∀ e ∈ entries, e.formatted = true →
        (entryPath dirPath e.dName).length+1 ≤ subname.length := by
  -- each path overwrites the one before it, in a buffer of the same length
  induction entries generalizing subname with
  | nil => simp [removeLoop]
  | cons e rest ih =>
    by_cases hform : e.formatted = true
    · cases hprint : sprintf subname (entryPath dirPath e.dName) with
      | none =>
        have hlong := (sprintf_isSome_iff subname (entryPath dirPath e.dName)).not.mp
          (by simp [hprint])
        refine iff_of_false (by simp [removeLoop, hform, hprint]) ?_
        intro hfits
        exact hlong (hfits e (by simp) hform)
      | some subname' =>
        have hfits := (sprintf_isSome_iff subname (entryPath dirPath e.dName)).mp ⟨_, hprint⟩
        have hlen := sprintf_length hprint
        have hrest := ih subname'
        rw [hlen] at hrest
        have hloop : (∃ paths, removeLoop dirPath (e :: rest) subname = some paths) ↔
            ∃ paths, removeLoop dirPath rest subname' = some paths := by
          cases hnext : removeLoop dirPath rest subname' <;>
            simp [removeLoop, hform, hprint, hnext]
        rw [hloop, hrest, List.forall_mem_cons]
        exact (and_iff_right (fun _ => hfits)).symm
    · have hloop : removeLoop dirPath (e :: rest) subname = removeLoop dirPath rest subname := by
        simp [removeLoop, hform]
      rw [hloop, ih]
      simp [hform]

/-- Within the buffer, `remove` is called for the files and directories in order. -/
theorem removeLoop_paths (entries : List Dirent) (subname : Bytes) {paths : List Bytes}
    (h : removeLoop dirPath entries subname = some paths)
    (hnul : ∀ e ∈ entries, 0 ∉ entryPath dirPath e.dName) :
    paths = (entries.filter Dirent.formatted).map (fun e => entryPath dirPath e.dName) := by
  induction entries generalizing subname paths with
  | nil =>
    obtain rfl := Option.some.inj h
    rfl
  | cons e rest ih =>
    have hrest : ∀ e ∈ rest, 0 ∉ entryPath dirPath e.dName := fun e he => hnul e (by simp [he])
    by_cases hform : e.formatted = true
    · simp only [removeLoop, hform, if_true, Option.bind_eq_bind, Option.bind_eq_some_iff,
        Option.pure_def, Option.some.injEq] at h
      obtain ⟨subname', hprint, paths', hloop, rfl⟩ := h
      rw [sprintf_cString hprint (hnul e (by simp)), ih subname' hloop hrest,
        List.filter_cons_of_pos hform, List.map_cons]
    · have hloop : removeLoop dirPath rest subname = some paths := by
        simpa [removeLoop, hform] using h
      rw [ih subname hloop hrest, List.filter_cons_of_neg hform]

/-- The loop stays inside its buffer exactly when no path that it formats is longer. -/
theorem removePaths_isSome_iff (entries : List Dirent) :
    (∃ paths, removePaths dirPath entries = some paths) ↔
      ∀ e ∈ entries, e.formatted = true → dirPath.length+e.dName.length ≤ 98 := by
  unfold removePaths
  rw [removeLoop_isSome_iff]
  simp only [entryPath_length, List.length_replicate]
  constructor
  · intro h e he hform
    have hfits := h e he hform
    omega
  · intro h e he hform
    have hfits := h e he hform
    omega

end Loop

end OnlineJudge
