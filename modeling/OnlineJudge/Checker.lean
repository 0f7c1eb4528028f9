import OnlineJudge.Protocol

/-! `Checker::run`: the lengths of the two output files, their memory maps, the comparison as
C strings and the comparison without white space. -/
namespace OnlineJudge

/-- An open file as the checker meets it: its bytes, and whether `fstat` and a `mmap` of a
positive length succeed on it. -/
structure FileView where
  data : Bytes
  fstat : Bool := true
  mmap : Bool := true
  deriving DecidableEq

structure Checker where
  result : JudgeResult := .kUKE
  useroutLen : ℤ := -1
  rightoutLen : ℤ := -1
  deriving DecidableEq

/-- The conversion of a file size to `int32_t`. -/
def toInt32 (n : ℕ) : ℤ := Int.bmod n (2^32)

def checkOutLength (c : Checker) (userout rightout : FileView) : ReturnCode × Checker :=
  if !userout.fstat then (.kError, c)
  else if userout.data.length > kMaxLength then (.kError, { c with result := .kOLE })
  else
    let c := { c with useroutLen := toInt32 userout.data.length }
    if !rightout.fstat then (.kError, c)
    else (.kOk, { c with rightoutLen := toInt32 rightout.data.length })

def pageEnd (pagesize len : ℕ) : ℕ := (len+pagesize-1)/pagesize*pagesize

/-- `MemoryMap::map`: the bytes that can be read through the pointer, up to the end of the
last page, with zeros behind the end of the file. Length 0, and a negative length as a
`size_t`, are refused by `mmap`. -/
def memoryMap (pagesize : ℕ) (file : FileView) (len : ℤ) : Option Bytes :=
  if 0 < len ∧ file.mmap = true then some (file.data.takeD (pageEnd pagesize len.toNat) 0)
  else none

/-- `isEqualStr` on what is mapped from the two pointers on; `none` is a read behind the end
of a mapping. -/
def isEqualStr : Bytes → Bytes → Option Bool
  | c1 :: s, c2 :: s2 =>
    if c1 = c2 then
      if c1 = 0 ∨ c2 = 0 then some ((c1 ||| c2) == 0) else isEqualStr s s2
    else some ((c1 ||| c2) == 0)
  | _, _ => none

def isBlank (c : UInt8) : Bool := c == 32 || c == 10 || c == 13 || c == 9

/-- The loops of `isPE` that move one cursor over white space, in at most `steps` rounds. -/
def skipBlanks (buf : Bytes) (fin : ℕ) : ℕ → ℕ → Option ℕ
  | 0, cursor => some cursor
  | steps+1, cursor =>
    if cursor < fin then do
      let c ← buf[cursor]?
      if isBlank c then skipBlanks buf fin steps (cursor+1) else some cursor
    else some cursor

/-- The outer loop of `isPE`, in at most `steps` rounds, and the two cursors it ends with. -/
def peLoop (user right : Bytes) (endUser endRight : ℕ) : ℕ → ℕ → ℕ → Option (ℕ × ℕ)
  | 0, cuser, cright => some (cuser, cright)
  | steps+1, cuser, cright =>
    if cuser < endUser ∧ cright < endRight then do
      let cuser ← skipBlanks user endUser (endUser-cuser) cuser
      let cright ← skipBlanks right endRight (endRight-cright) cright
      if cuser = endUser ∨ cright = endRight then some (cuser, cright)
      else
        let a ← user[cuser]?
        let b ← right[cright]?
        if a ≠ b then some (cuser, cright)
        else peLoop user right endUser endRight steps (cuser+1) (cright+1)
    else some (cuser, cright)

/-- `isPE`; each round of the outer loop moves the user's cursor, so `endUser` rounds are
enough. -/
def isPE (user right : Bytes) (endUser endRight : ℕ) : Option Bool := do
  let (cuser, cright) ← peLoop user right endUser endRight endUser 0 0
  let cuser ← skipBlanks user endUser (endUser-cuser) cuser
  let cright ← skipBlanks right endRight (endRight-cright) cright
  return cuser == endUser && cright == endRight

/-- A read outside the mappings is undefined. -/
def mapped {α : Type} : Option α → Call α
  | some a => .ok a
  | none => .error .undefined

def Checker.run (pagesize : ℕ) (userout rightout : FileView) : Call (ReturnCode × Checker) :=
  match checkOutLength {} userout rightout with
  | (.kError, c) => .ok (.kError, c)
  | (_, c) =>
    match memoryMap pagesize userout c.useroutLen with
    | none => .ok (.kError, c)
    | some user =>
      match memoryMap pagesize rightout c.rightoutLen with
      | none => .ok (.kError, c)
      | some right => do
        if c.useroutLen ≠ c.rightoutLen then
          let pe ← mapped (isPE user right c.useroutLen.toNat c.rightoutLen.toNat)
          if pe then return (.kError, { c with result := .kPE })
          return (.kError, { c with result := .kWA })
        if ← mapped (isEqualStr user right) then return (.kOk, { c with result := .kAC })
        let pe ← mapped (isPE user right c.useroutLen.toNat c.rightoutLen.toNat)
        if pe then return (.kError, { c with result := .kPE })
        return (.kError, { c with result := .kWA })

end OnlineJudge
