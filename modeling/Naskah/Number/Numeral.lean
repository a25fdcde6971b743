import Naskah.Number.Decimal

/-
  Numerals: the texts that are read as a float. A numeral is an optional sign and then either one
  of the words `inf`, `infinity` and `nan`, in any case, or ASCII digits with at most one point and
  at least one digit, and an optional exponent: `e` or `E`, an optional sign, at least one digit.
-/

namespace Naskah.Numeral

/-- The optional sign before a numeral or an exponent; `true` is minus. -/
def splitSign : List Char → Bool × List Char
  | '-' :: r => (true, r)
  | '+' :: r => (false, r)
  | cs => (false, cs)

/-- The exponent after the digits, which may be missing. -/
def exponent? : List Char → Option Int
  | [] => some 0
  | c :: r =>
    if c == 'e' || c == 'E' then
      let (negative, ds) := splitSign r
      if ds.isEmpty || !ds.all Char.isDigit then none
      else
        let n : Int := Decimal.natOfDigits ds
        some (if negative then -n else n)
    else none

/-- The digits after the point, if there is one, and what follows them. -/
def splitFraction : List Char → List Char × List Char
  | '.' :: r => r.span Char.isDigit
  | cs => ([], cs)

/-- A decimal without sign. -/
def decimal? (cs : List Char) : Option Decimal :=
  let (whole, r) := cs.span Char.isDigit
  let (fraction, r) := splitFraction r
  if whole.isEmpty && fraction.isEmpty then none
  else (exponent? r).map fun e =>
    .reduced (Decimal.natOfDigits (whole ++ fraction)) (e - fraction.length)

/-- The floats that have names of their own. -/
def named? (cs : List Char) : Option Float :=
  let word := String.ofList (cs.map Char.toLower)
  if word = "inf" ∨ word = "infinity" then some (1.0 / 0.0)
  else if word = "nan" then some (0.0 / 0.0)
  else none

/-- The float that a numeral stands for: the nearest one, or an infinity where the numeral is out
    of range. -/
def read? (cs : List Char) : Option Float :=
  let (negative, r) := splitSign cs
  let magnitude := (named? r).or ((decimal? r).map Decimal.toFloat)
  magnitude.map fun x => if negative then -x else x

end Naskah.Numeral
