/-! The ways a call can end without returning. Undefined behaviour of the
language has outcomes of its own, so that a theorem can rule it out. -/
namespace MisFITS

/-- CFITSIO's status codes, with the ones the code compares with by name. -/
inductive Status where
  | keyNoExist | valueUndefined | readonlyFile
  | other (code : Int)
  deriving DecidableEq, Repr

inductive Exception where
  /-- `Exception::CFITSIO` -/
  | cfitsio (status : Status)
  /-- `Exception::Assert` -/
  | assert (what : String)
  /-- `std::out_of_range`, thrown by `vector::at` -/
  | outOfRange
  /-- integer division by zero, which is undefined -/
  | divideByZero
  /-- an access outside of a buffer, which is undefined -/
  | overrun
  deriving DecidableEq, Repr

end MisFITS
