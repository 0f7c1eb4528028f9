import OnlineJudge.Judge

/-! `call_limit.hpp`: the system calls that each supported language may make, by their
numbers on x86-64. The lists of the languages without a judger are read by nothing. -/
namespace OnlineJudge

def cCallLimit : CallLimit :=
  [8, 201, 0, 63, 1, 2, 3, 59, 21, 12, 11, 10, 9, 5, 205, 252, 158, 231, 0]

def cppCallLimit : CallLimit :=
  [8, 201, 0, 63, 1, 2, 3, 59, 21, 12, 11, 10, 9, 5, 205, 252, 158, 231, 0]

def pythonCallLimit : CallLimit :=
  [146, 25, 158, 117, 60, 39, 102, 191, 257, 21, 158, 12, 3, 59, 231, 72, 5, 202, 79, 78, 108,
    107, 104, 97, 102, 16, 8, 6, 9, 10, 11, 2, 0, 89, 13, 14, 273, 218, 4, 1, 0]

def javaCallLimit : CallLimit :=
  [61, 22, 6, 33, 8, 16, 111, 110, 39, 79, 72, 217, 97, 14, 202, 0, 9, 4, 2, 3, 59, 21, 12, 89,
    11, 3, 63, 56, 63, 10, 13, 97, 5, 102, 104, 107, 108, 205, 218, 273, 231, 158, 0]

def rubyCallLimit : CallLimit :=
  [6, 16, 22, 56, 72, 98, 131, 340, 4, 126, 21, 158, 12, 3, 59, 231, 5, 202, 108, 107, 104, 102,
    97, 9, 10, 11, 2, 0, 13, 14, 273, 218, 1, 0]

end OnlineJudge
