import Naskah.Error

/-
  Values: numbers, texts and booleans. Every value is true or false as a condition.
-/

namespace Naskah

inductive Value where
  | number (x : Float)
  | text (s : String)
  | boolean (b : Bool)
deriving DecidableEq

namespace Value

def type : Value → ValueType
  | number _ => .number
  | text _ => .text
  | boolean _ => .boolean

/-- Zero, what is not a number, the empty text and `salah` are false; all else is true. -/
def isTruthy : Value → Bool
  | number x => x != 0.0 && !x.isNaN
  | text s => !s.isEmpty
  | boolean b => b

end Value

end Naskah
