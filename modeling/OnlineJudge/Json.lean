import OnlineJudge.Protocol

/-! The part of jsoncpp that the programs use: values, `get` with a default, and the
conversions, which throw on a value of another kind. Reading and writing text is left to a
parameter. -/
namespace OnlineJudge

namespace Json

/-- `intValue` and `uintValue` are one constructor: the reader chooses between them by the
size of the number alone, and reads a number outside both as a `realValue`. -/
inductive Value
  | null
  | int (n : ℤ)
  | real (q : ℚ)
  | boolean (b : Bool)
  | string (s : Bytes)
  | array (xs : List Value)
  | object (members : List (String × Value))

def notConvertible {α : Type} (type : String) : Call α :=
  .error (.terminate ("Type is not convertible to " ++ type))

namespace Value

/-- `Value::get`; on a value that is neither null nor an object an assertion fails. -/
def get (root : Value) (key : String) (defaultValue : Value) : Call Value :=
  match root with
  | null => .ok defaultValue
  | object members => .ok ((members.lookup key).getD defaultValue)
  | _ => .error (.terminate "type_ == nullValue || type_ == objectValue")

def asUInt : Value → Call UInt32
  | null => .ok 0
  | int n =>
    if n < 0 then
      .error (.terminate "Negative integer can not be converted to unsigned integer")
    else if n ≤ 4294967295 then .ok (UInt32.ofInt n)
    else .error (.terminate "Real out of unsigned integer range")
  | real q =>
    if 0 ≤ q ∧ q ≤ 4294967295 then .ok (UInt32.ofInt ⌊q⌋)
    else .error (.terminate "Real out of unsigned integer range")
  | boolean b => .ok (if b then 1 else 0)
  | _ => notConvertible "uint"

def asInt : Value → Call ℤ
  | null => .ok 0
  | int n =>
    if n ≤ 2147483647 then .ok n
    else .error (.terminate "integer out of signed integer range")
  | real q =>
    if -2147483648 ≤ q ∧ q ≤ 2147483647 then .ok (if 0 ≤ q then ⌊q⌋ else ⌈q⌉)
    else .error (.terminate "Real out of signed integer range")
  | boolean b => .ok (if b then 1 else 0)
  | _ => notConvertible "int"

def asBool : Value → Bool
  | null => false
  | int n => n ≠ 0
  | real q => q ≠ 0
  | boolean b => b
  | string s => s.headD 0 ≠ 0
  | array xs => !xs.isEmpty
  | object members => !members.isEmpty

def asString : Value → Call Bytes
  | null => .ok []
  | boolean b => .ok (str (if b then "true" else "false"))
  | string s => .ok s
  | _ => notConvertible "string"

end Value

/-- `Reader::parse`, as what it leaves in `root`, and `FastWriter::write`. -/
structure Codec where
  parse : Bytes → Value
  write : Value → Bytes

section FastWriter

def hexDigit (n : UInt8) : UInt8 := if n < 10 then 48+n else 55+n

def escaped (c : UInt8) : Bytes :=
  if c = 34 ∨ c = 92 then [92, c]
  else if c = 8 then str "\\b"
  else if c = 9 then str "\\t"
  else if c = 10 then str "\\n"
  else if c = 12 then str "\\f"
  else if c = 13 then str "\\r"
  else if c < 32 then str "\\u00" ++ [hexDigit (c/16), hexDigit (c%16)]
  else [c]

def quoted (s : Bytes) : Bytes := [34] ++ s.flatMap escaped ++ [34]

mutual

/-- `FastWriter::writeValue`, but for the rounding of numbers with a fraction. -/
def writeValue : Value → Bytes
  | .null => str "null"
  | .int n => str (toString n)
  | .real q => str (toString q)
  | .boolean b => str (toString b)
  | .string s => quoted s
  | .array xs => [91] ++ writeElements xs ++ [93]
  | .object members => [123] ++ writeMembers members ++ [125]

def writeElements : List Value → Bytes
  | [] => []
  | [v] => writeValue v
  | v :: w :: rest => writeValue v ++ [44] ++ writeElements (w :: rest)

def writeMember : String × Value → Bytes
  | (key, v) => quoted (str key) ++ [58] ++ writeValue v

def writeMembers : List (String × Value) → Bytes
  | [] => []
  | [m] => writeMember m
  | m :: m' :: rest => writeMember m ++ [44] ++ writeMembers (m' :: rest)

end

/-- The codec that knows these documents; the reader leaves null for every other text. -/
def Codec.ofDocuments (documents : List (Bytes × Value)) : Codec where
  parse data := (documents.lookup data).getD .null
  write v := writeValue v ++ [10]

end FastWriter

end Json

end OnlineJudge
